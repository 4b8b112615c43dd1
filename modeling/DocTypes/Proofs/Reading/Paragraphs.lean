/-
  Paragraphs are in normal form, whatever they were cleaned from. Each is a line of running text,
  with single spaces for its gaps (`IsLine`), and a break, which is an empty text, stands between
  two paragraphs only (`IsNormal`). Breaks come of markup in any number and order; adding texts
  from the last to the first, each in front of those that are in order already, keeps the ones
  that are wanted (`settled_addParagraph`). The items of an operation's list are added behind one
  more break, which is between paragraphs because neither side is empty.
-/
import Mathlib.Data.List.Chain
import DocTypes.Proofs.Page.Characters
import DocTypes.Proofs.Reading.Entities
import DocTypes.Proofs.Text.Plain

namespace DocTypes

open Text Page

/-! ## Lines -/

/-- A line of running text: its gaps are single spaces, and there are no blanks at its ends. -/
structure Text.IsLine (t : Text) : Prop where
  newline_notMem : '\n' ∉ t
  tab_notMem : '\t' ∉ t
  noBreakSpace_notMem : '\u00a0' ∉ t
  single : ¬ [' ', ' '] <:+: t
  isBlank_head : ∀ c ∈ t.head?, isBlank c = false
  isBlank_last : ∀ c ∈ t.getLast?, isBlank c = false

theorem isLine_nil : IsLine [] := by
  constructor <;> simp

theorem isLine_collapse {s : Text} (h : '\n' ∉ s) : IsLine (collapse s) where
  newline_notMem := newline_notMem_collapse h
  tab_notMem := tab_notMem_collapse s
  noBreakSpace_notMem := notMem_collapse rfl (by decide) s
  single := fun hpair => single_squeeze s (hpair.trans (trim_isInfix (squeeze s)))
  isBlank_head := isBlank_head_of_trim (trim_collapse s)
  isBlank_last := isBlank_last_of_trim (trim_collapse s)

/-! ## Paragraphs and breaks -/

/-- There is a break between two paragraphs at most. -/
abbrev SingleBreaks (ts : List Text) : Prop := ts.IsChain fun t u => t ≠ [] ∨ u ≠ []

/-- Paragraphs in normal form: lines, with a break, which is an empty text, nowhere but between two
of them. -/
structure IsNormal (ts : List Text) : Prop where
  lines : ∀ t ∈ ts, IsLine t
  head_ne : ts.head? ≠ some []
  last_ne : ts.getLast? ≠ some []
  single : SingleBreaks ts

/-- What is in order behind the paragraphs that are still to be added. -/
structure Settled (ts : List Text) : Prop where
  last_ne : ts.getLast? ≠ some []
  single : SingleBreaks ts

theorem settled_nil : Settled [] := ⟨by simp, .nil⟩

/-- A break is added in front of a paragraph only. -/
theorem settled_addParagraph {ts : List Text} (h : Settled ts) (t : Text) :
    Settled (addParagraph t ts) := by
  unfold addParagraph
  split
  · exact h
  · next hadd =>
    have hbreak : t = [] → ∃ u us, ts = u :: us ∧ u ≠ [] := by
      rintro rfl
      cases ts with
      | nil => exact absurd rfl hadd
      | cons u us => exact ⟨u, us, rfl, by simpa using hadd⟩
    refine ⟨?_, List.isChain_cons.2 ⟨fun u hu => ?_, h.single⟩⟩
    · cases ts with
      | nil =>
        rintro ⟨⟩
        obtain ⟨u, us, hcons, -⟩ := hbreak rfl
        cases hcons
      | cons u us => simpa using h.last_ne
    · refine or_iff_not_imp_left.2 fun ht => ?_
      obtain ⟨v, vs, rfl, hv⟩ := hbreak (not_not.1 ht)
      cases hu
      exact hv

/-- Tidied breaks are in normal form. -/
theorem isNormal_tidyBreaks {ts : List Text} (h : ∀ t ∈ ts, IsLine t) :
    IsNormal (tidyBreaks ts) := by
  have hsettled : Settled (ts.foldr addParagraph []) := by
    clear h
    induction ts with
    | nil => exact settled_nil
    | cons t ts ih => exact settled_addParagraph ih t
  have hsuffix : tidyBreaks ts <:+ ts.foldr addParagraph [] := List.dropWhile_suffix _
  refine ⟨fun t ht => h t (mem_of_mem_tidyBreaks ht), fun hhead => ?_, fun hlast => ?_,
    hsettled.single.suffix hsuffix⟩
  · have hnot := List.head?_dropWhile_not List.isEmpty (ts.foldr addParagraph [])
    rw [show List.dropWhile _ _ = tidyBreaks ts from rfl, hhead] at hnot
    cases hnot
  · obtain ⟨front, hfront⟩ := hsuffix
    refine hsettled.last_ne ?_
    rw [← hfront, List.getLast?_append, hlast, Option.some_or]

/-- Prose is in normal form, whatever its markup. -/
theorem isNormal_cleanProse (html : Text) : IsNormal (cleanProse html) := by
  refine isNormal_tidyBreaks fun t ht => ?_
  obtain ⟨piece, hpiece, rfl⟩ := List.mem_map.1 ht
  exact isLine_collapse (notMem_of_mem_splitOn hpiece)

/-! ## Items -/

/-- Lines without a break. -/
structure IsUnbroken (ts : List Text) : Prop where
  lines : ∀ t ∈ ts, IsLine t
  ne_nil : ∀ t ∈ ts, t ≠ []

theorem isUnbroken_cleanList (html : Text) : IsUnbroken (cleanList html) where
  lines t ht := by
    obtain ⟨item, hitem, rfl⟩ := exists_item_of_mem_cleanList ht
    exact isLine_collapse (notMem_of_mem_splitOn hitem)
  ne_nil t ht := by simpa using (List.mem_filter.1 ht).2

theorem IsUnbroken.isNormal {ts : List Text} (h : IsUnbroken ts) : IsNormal ts where
  lines := h.lines
  head_ne hhead := h.ne_nil [] (List.mem_of_mem_head? hhead) rfl
  last_ne hlast := h.ne_nil [] (List.mem_of_mem_getLast? hlast) rfl
  single := (List.pairwise_of_forall_mem_list fun t ht _ _ => Or.inl (h.ne_nil t ht)).isChain

/-- Lines without a break can follow paragraphs behind one. -/
theorem IsNormal.append {ts us : List Text} (hts : IsNormal ts) (hne : ts ≠ [])
    (hus : IsUnbroken us) (hne' : us ≠ []) : IsNormal (ts ++ [] :: us) := by
  obtain ⟨t, ts, rfl⟩ := List.exists_cons_of_ne_nil hne
  obtain ⟨u, us, rfl⟩ := List.exists_cons_of_ne_nil hne'
  have hu : u ≠ [] := hus.ne_nil u List.mem_cons_self
  refine ⟨fun x hx => ?_, hts.head_ne, ?_, ?_⟩
  · rcases List.mem_append.1 hx with hx | hx
    · exact hts.lines x hx
    · rcases List.mem_cons.1 hx with rfl | hx
      · exact isLine_nil
      · exact hus.lines x hx
  · rw [List.getLast?_append, List.getLast?_cons_cons, List.getLast?_cons, Option.some_or]
    rw [← List.getLast?_cons]
    exact hus.isNormal.last_ne
  · refine List.isChain_append.2 ⟨hts.single, List.isChain_cons.2 ⟨?_, hus.isNormal.single⟩, ?_⟩
    · rintro _ ⟨⟩
      exact Or.inr hu
    · rintro x hx _ ⟨⟩
      exact Or.inl fun hnil => hts.last_ne (hnil ▸ hx)

/-! ## Entities -/

/-- The prose of a block is in normal form, and no item of its list is empty. -/
theorem normal_of_mem_blocks {page : Text} {b : Block} (h : b ∈ blocks page) :
    IsNormal b.prose ∧ IsUnbroken b.list := by
  obtain ⟨f, -, rfl⟩ := List.mem_map.1 h
  refine ⟨isNormal_cleanProse f.prose, ?_⟩
  cases hlist : f.list with
  | none =>
    rw [Block.ofFragment, hlist]
    exact ⟨fun t ht => (by cases ht), fun t ht => (by cases ht)⟩
  | some html =>
    rw [Block.ofFragment, hlist]
    exact isUnbroken_cleanList html

theorem isNormal_operationDescription {b : Block} (hprose : IsNormal b.prose)
    (hlist : IsUnbroken b.list) : IsNormal (operationDescription b) := by
  unfold operationDescription
  split
  · exact hprose
  · next hl =>
    split
    · exact hlist.isNormal
    · next hp => exact hprose.append (by simpa using hp) hlist (by simpa using hl)

/-- **Main theorem.** Prose is in normal form, whatever its markup, and so is the description of
every entity of a page that is read without a fault, be it an operation with the items of its list
behind its paragraphs. -/
theorem isNormal_description : (∀ html, IsNormal (cleanProse html)) ∧
    ∀ page es, (Reading.ofPage page).entities = .ok es →
      ∀ e ∈ es, IsNormal (e.description.map String.toList) := by
  refine ⟨isNormal_cleanProse, fun page es h e he => ?_⟩
  obtain ⟨b, hb, t, -, hdescribes⟩ := exists_describes h he
  obtain ⟨hprose, hlist⟩ := normal_of_mem_blocks hb
  have htext : ∀ ts : List Text, (ts.map String.ofList).map String.toList = ts := by
    intro ts
    rw [List.map_map]
    exact List.map_id'' (fun t => String.toList_ofList) ts
  rw [hdescribes.description_eq, htext]
  split
  · exact isNormal_operationDescription hprose hlist
  · exact hprose

/-- An operation with two paragraphs and the items of a list. -/
theorem isNormal_description_getMe :
    let page := ("<h4>getMe</h4><p>Gets<br> it.</p><p></p><p>Returns User.</p><ul><li>now</li>" ++
      "<li></li><li>later</li></ul>").toList
    ∃ e, (Reading.ofPage page).entities = .ok [e] ∧
      e.description = ["Gets", "it.", "", "Returns User.", "", "now", "later"] ∧
      IsNormal (e.description.map String.toList) := by
  intro page
  have hdescription : (Reading.ofPage page).entities.toOption.map (List.map Entity.description) =
      some [["Gets", "it.", "", "Returns User.", "", "now", "later"]] := by decide +kernel
  cases h : (Reading.ofPage page).entities with
  | error e => rw [h] at hdescription; cases hdescription
  | ok es =>
    rw [h] at hdescription
    obtain ⟨e, rfl, he⟩ := List.map_eq_singleton_iff.1 (Option.some.inj hdescription)
    exact ⟨e, rfl, he, isNormal_description.2 page [e] h e List.mem_cons_self⟩

end DocTypes
