/-
  Data that say the same to a reader who looks fields up by name. The fields of a record may stand
  in any order and fields of unknown names among them, at any depth (`Rearranged`). What a record
  holds under a name, and what a list holds at a place, are then rearranged in turn
  (`Rearranged.exists_record`, `Rearranged.exists_list`).
-/
import DocTypes.Data.Codec
import Mathlib.Data.List.Forall2

namespace DocTypes.Data

/-- The second value is the first with the fields of its records in another order, and further
fields in them, any number of times and at any depth. -/
inductive Rearranged : Data → Data → Prop where
  | refl (d : Data) : Rearranged d d
  | trans {a b c : Data} : Rearranged a b → Rearranged b c → Rearranged a c
  | reorder {fs gs : List (String × Data)} :
      (fs.map Prod.fst).Nodup → fs.Perm gs → Rearranged (record fs) (record gs)
  | add {fs : List (String × Data)} {k : String} (d : Data) :
      k ∉ fs.map Prod.fst → Rearranged (record fs) (record ((k, d) :: fs))
  | field {d d' : Data} (fs : List (String × Data)) (k : String) (gs : List (String × Data)) :
      Rearranged d d' → Rearranged (record (fs ++ (k, d) :: gs)) (record (fs ++ (k, d') :: gs))
  | item {d d' : Data} (ds es : List Data) :
      Rearranged d d' → Rearranged (list (ds ++ d :: es)) (list (ds ++ d' :: es))

/-! ## Records -/

theorem lookup_of_perm {fs gs : List (String × Data)} (hkeys : (fs.map Prod.fst).Nodup)
    (h : fs.Perm gs) (k : String) : fs.lookup k = gs.lookup k := by
  induction h with
  | nil => rfl
  | cons f _ ih =>
    obtain ⟨n, d⟩ := f
    rw [List.lookup_cons, List.lookup_cons, ih (List.nodup_cons.1 hkeys).2]
  | swap f g fs =>
    obtain ⟨n, d⟩ := f
    obtain ⟨m, e⟩ := g
    have hne : m ≠ n := fun hmn =>
      (List.nodup_cons.1 hkeys).1 (hmn ▸ List.mem_cons_self ..)
    simp only [List.lookup_cons]
    by_cases hm : k = m
    · rw [hm, beq_self_eq_true, beq_false_of_ne hne]
    · rw [beq_false_of_ne hm]
  | trans h _ ih ih' =>
    exact (ih hkeys).trans (ih' ((h.map Prod.fst).nodup_iff.1 hkeys))

theorem lookup_eq_none_of_notMem {fs : List (String × Data)} {k : String}
    (h : k ∉ fs.map Prod.fst) : fs.lookup k = none := by
  refine List.lookup_eq_none_iff.2 fun f hf => ?_
  rw [bne_iff_ne]
  rintro rfl
  exact h (List.mem_map_of_mem hf)

/-- Every field of the record `fs` stands in the record `gs` too, rearranged. -/
def Covers (fs gs : List (String × Data)) : Prop :=
  ∀ k v, fs.lookup k = some v → ∃ w, gs.lookup k = some w ∧ v.Rearranged w

theorem Covers.trans {fs gs hs : List (String × Data)} (h : Covers fs gs) (h' : Covers gs hs) :
    Covers fs hs := by
  intro k v hv
  obtain ⟨w, hw, hvw⟩ := h k v hv
  obtain ⟨u, hu, hwu⟩ := h' k w hw
  exact ⟨u, hu, hvw.trans hwu⟩

theorem covers_of_lookup {fs gs : List (String × Data)}
    (h : ∀ k v, fs.lookup k = some v → gs.lookup k = some v) : Covers fs gs :=
  fun k v hv => ⟨v, h k v hv, .refl v⟩

theorem covers_field {d d' : Data} (h : d.Rearranged d') (fs : List (String × Data)) (k : String)
    (gs : List (String × Data)) : Covers (fs ++ (k, d) :: gs) (fs ++ (k, d') :: gs) := by
  intro n v hv
  rw [List.lookup_append, List.lookup_cons] at hv
  rw [List.lookup_append, List.lookup_cons]
  cases hfs : fs.lookup n with
  | some u =>
    rw [hfs, Option.some_or] at hv
    exact ⟨u, rfl, Option.some.inj hv ▸ .refl u⟩
  | none =>
    rw [hfs, Option.none_or] at hv
    cases hn : n == k with
    | true =>
      rw [hn] at hv
      exact ⟨d', rfl, Option.some.inj hv ▸ h⟩
    | false =>
      rw [hn] at hv
      exact ⟨v, hv, .refl v⟩

/-- A record is rearranged to a record that has all its fields. -/
theorem Rearranged.exists_record {fs : List (String × Data)} {d : Data}
    (h : (record fs).Rearranged d) : ∃ gs, d = record gs ∧ Covers fs gs := by
  generalize hx : record fs = x at h
  induction h generalizing fs with
  | refl => exact ⟨fs, hx.symm, covers_of_lookup fun _ _ hv => hv⟩
  | trans _ _ ih ih' =>
    obtain ⟨gs, hgs, hcover⟩ := ih hx
    obtain ⟨hs, hhs, hcover'⟩ := ih' hgs.symm
    exact ⟨hs, hhs, hcover.trans hcover'⟩
  | reorder hkeys hperm =>
    cases hx
    exact ⟨_, rfl, covers_of_lookup fun k v hv => lookup_of_perm hkeys hperm k ▸ hv⟩
  | add d hk =>
    cases hx
    refine ⟨_, rfl, covers_of_lookup fun n v hv => ?_⟩
    have hne : n ≠ _ := fun hn => by
      rw [hn, lookup_eq_none_of_notMem hk] at hv
      cases hv
    rw [List.lookup_cons, beq_false_of_ne hne]
    exact hv
  | field fs k gs h =>
    cases hx
    exact ⟨_, rfl, covers_field h fs k gs⟩
  | item => cases hx

/-! ## Lists and single values -/

theorem forall₂_refl (ds : List Data) : List.Forall₂ Rearranged ds ds :=
  List.forall₂_same.2 fun d _ => .refl d

theorem forall₂_trans {as bs cs : List Data} (h : List.Forall₂ Rearranged as bs)
    (h' : List.Forall₂ Rearranged bs cs) : List.Forall₂ Rearranged as cs := by
  induction h generalizing cs with
  | nil => exact h'
  | cons hab _ ih =>
    cases h' with
    | cons hbc htail => exact .cons (hab.trans hbc) (ih htail)

/-- A list is rearranged item by item. -/
theorem Rearranged.exists_list {ds : List Data} {d : Data} (h : (list ds).Rearranged d) :
    ∃ es, d = list es ∧ List.Forall₂ Rearranged ds es := by
  generalize hx : list ds = x at h
  induction h generalizing ds with
  | refl => exact ⟨ds, hx.symm, forall₂_refl ds⟩
  | trans _ _ ih ih' =>
    obtain ⟨es, hes, hds⟩ := ih hx
    obtain ⟨fs, hfs, hes'⟩ := ih' hes.symm
    exact ⟨fs, hfs, forall₂_trans hds hes'⟩
  | item ds es h =>
    cases hx
    refine ⟨_, rfl, List.rel_append (forall₂_refl ds) (.cons h (forall₂_refl es))⟩
  | reorder | add | field => cases hx

/-- What is neither a record nor a list stays as it is. -/
theorem Rearranged.eq_of_single {d d' : Data} (h : d.Rearranged d')
    (hrecord : ∀ fs, d ≠ record fs) (hlist : ∀ ds, d ≠ list ds) : d' = d := by
  induction h with
  | refl => rfl
  | trans _ _ ih ih' =>
    have heq := ih hrecord hlist
    rw [heq] at ih'
    exact ih' hrecord hlist
  | reorder | add | field => exact absurd rfl (hrecord _)
  | item => exact absurd rfl (hlist _)

end DocTypes.Data
