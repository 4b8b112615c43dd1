/-
  What is written as data is read back, also where the fields of the data were put into another
  order and unknown fields added (`ReadsBack`). Each reader looks the fields up that its writer
  wrote, so the reader of a form is settled by the readers of its fields; a type, which holds
  further types, is settled by induction.
-/
import DocTypes.Proofs.Data.Rearranged
import Mathlib.Data.List.Basic

namespace DocTypes

open Data

/-- From any rearrangement of what is written for a value, the value is read. -/
def ReadsBack {α : Type} (write : α → Data) (read? : Data → Option α) : Prop :=
  ∀ x d, (write x).Rearranged d → read? d = some x

namespace Data

/-! ## Single values and lists -/

theorem readsBack_text : ReadsBack text text? := by
  intro s d h
  rw [h.eq_of_single (fun _ => Data.noConfusion) (fun _ => Data.noConfusion)]
  rfl

theorem readsBack_bool : ReadsBack bool bool? := by
  intro b d h
  rw [h.eq_of_single (fun _ => Data.noConfusion) (fun _ => Data.noConfusion)]
  rfl

theorem mapM_of_forall₂ {α : Type} {write : α → Data} {read? : Data → Option α} {xs : List α}
    (hread : ∀ x ∈ xs, ∀ d, (write x).Rearranged d → read? d = some x) {ds : List Data}
    (h : List.Forall₂ Rearranged (xs.map write) ds) : ds.mapM read? = some xs := by
  induction xs generalizing ds with
  | nil =>
    cases h
    rfl
  | cons x xs ih =>
    cases h with
    | cons hd htail =>
      rw [List.mapM_cons, hread x (List.mem_cons_self ..) _ hd,
        ih (fun y hy => hread y (List.mem_cons_of_mem _ hy)) htail]
      rfl

theorem readsBack_list {α : Type} {write : α → Data} {read? : Data → Option α}
    (hread : ReadsBack write read?) :
    ReadsBack (fun xs : List α => Data.list (xs.map write)) (listOf? read?) := by
  intro xs d h
  obtain ⟨ds, rfl, hds⟩ := h.exists_list
  exact mapM_of_forall₂ (fun x _ d hd => hread x d hd) hds

theorem readsBack_texts : ReadsBack (fun ss => texts ss) (listOf? text?) :=
  readsBack_list readsBack_text

/-! ## Records -/

variable {fs : List (String × Data)} {d : Data}

/-- The named fields of a record are found, rearranged. -/
theorem Rearranged.fields? (h : (record fs).Rearranged d) (names : List String) {vs : List Data}
    (hvs : (record fs).fields? names = some vs) :
    ∃ ws, d.fields? names = some ws ∧ List.Forall₂ Rearranged vs ws := by
  obtain ⟨gs, rfl, hcover⟩ := h.exists_record
  simp only [Data.fields?] at hvs ⊢
  induction names generalizing vs with
  | nil =>
    cases hvs
    exact ⟨[], rfl, .nil⟩
  | cons n names ih =>
    simp only [List.mapM_cons, Option.bind_eq_bind, Option.pure_def, Option.bind_eq_some_iff,
      Option.some.injEq] at hvs
    obtain ⟨v, hv, tail, htail, rfl⟩ := hvs
    obtain ⟨w, hw, hvw⟩ := hcover n v hv
    obtain ⟨ws, hws, htails⟩ := ih htail
    refine ⟨w :: ws, ?_, .cons hvw htails⟩
    rw [List.mapM_cons, hw, hws]
    rfl

/-- The name of an alternative is found, and the record kept whole. -/
theorem Rearranged.tagged? (h : (record fs).Rearranged d) (tag : String) {name : String}
    (htag : fs.lookup tag = some (text name)) (level : Level) (names : List String) :
    ∃ gs, d = record gs ∧ d.tagged? level tag names = some (name, d) := by
  obtain ⟨gs, rfl, hcover⟩ := h.exists_record
  obtain ⟨w, hw, htext⟩ := hcover tag _ htag
  have hname : w = text name :=
    htext.eq_of_single (fun _ => Data.noConfusion) (fun _ => Data.noConfusion)
  refine ⟨gs, rfl, ?_⟩
  simp only [Data.tagged?, hw, hname, Data.label?, Option.map_some]

end Data

/-! ## Types -/

theorem Primitive.readsBack (level : Level) :
    ReadsBack Primitive.toData (Primitive.ofData? level) := by
  intro p d h
  have hd : d = p.toData :=
    h.eq_of_single (fun _ => Data.noConfusion) (fun _ => Data.noConfusion)
  rw [hd, Primitive.ofData?, Primitive.toData, choice?, Option.bind_some, ofTag?_tag]

namespace TypeExpr

/-- The name of the form is found, and its content rearranged. -/
theorem exists_ofForm? {name : String} {content d : Data} (h : (form name content).Rearranged d)
    (level : Level) : ∃ c, ofForm? level d = some (name, c) ∧ content.Rearranged c := by
  obtain ⟨gs, rfl, hcover⟩ := h.exists_record
  obtain ⟨w, hw, htext⟩ := hcover "kind" (.text name) rfl
  obtain ⟨c, hc, hcontent⟩ := hcover "of" content rfl
  have hname : w = .text name :=
    htext.eq_of_single (fun _ => Data.noConfusion) (fun _ => Data.noConfusion)
  refine ⟨c, ?_, hcontent⟩
  simp [ofForm?, hw, hname, hc, choice?]

theorem readsBack (level : Level) : ReadsBack toData (ofData? level) := by
  intro t d h
  cases t with
  | primitive p =>
    obtain ⟨c, hc, hcontent⟩ := exists_ofForm? h level
    rw [ofData?, hc]
    simp only [Primitive.readsBack level p c hcontent, Option.map_some]
  | array t =>
    obtain ⟨c, hc, hcontent⟩ := exists_ofForm? h level
    rw [ofData?, hc]
    simp only [readsBack level t c hcontent, Option.map_some]
  | union ts =>
    obtain ⟨c, hc, hcontent⟩ := exists_ofForm? h level
    rw [toDatas_eq_map] at hcontent
    obtain ⟨ds, rfl, hds⟩ := hcontent.exists_list
    have hmembers : ds.mapM (ofData? level) = some ts :=
      mapM_of_forall₂ (fun t ht d hd => readsBack level t d hd) hds
    rw [ofData?, hc]
    simp [hmembers]
  | literalSet vs =>
    obtain ⟨c, hc, hcontent⟩ := exists_ofForm? h level
    rw [ofData?, hc]
    simp only [readsBack_texts vs c hcontent, Option.map_some]
  | named n =>
    obtain ⟨c, hc, hcontent⟩ := exists_ofForm? h level
    rw [ofData?, hc]
    simp only [readsBack_text n c hcontent, Option.map_some]
termination_by t => sizeOf t

end TypeExpr

/-! ## Entities and the registry -/

theorem Field.readsBack (level : Level) : ReadsBack Field.toData (Field.ofData? level) := by
  intro f d h
  obtain ⟨ws, hws, hfields⟩ := h.fields? Field.names rfl
  rcases hfields with _ | ⟨hname, _ | ⟨hoptional, _ | ⟨htype, _ | ⟨hdescription, _ | _⟩⟩⟩⟩
  rw [Field.ofData?, hws]
  simp only [readsBack_text _ _ hname, readsBack_bool _ _ hoptional,
    TypeExpr.readsBack level _ _ htype, readsBack_text _ _ hdescription]
  rfl

theorem Request.readsBack (level : Level) : ReadsBack Request.toData (Request.ofData? level) := by
  intro r d h
  cases r with
  | record fields =>
    obtain ⟨gs, rfl, htag⟩ := h.tagged? "shape" rfl level _
    obtain ⟨ws, hws, hfields⟩ := h.fields? ["fields"] rfl
    rcases hfields with _ | ⟨hlist, _ | _⟩
    rw [Request.ofData?, htag]
    simp only [hws, readsBack_list (Field.readsBack .nested) fields _ hlist, Option.map_some]
  | noInput =>
    obtain ⟨gs, rfl, htag⟩ := h.tagged? "shape" rfl level _
    rw [Request.ofData?, htag]
    rfl

theorem Kind.readsBack (level : Level) : ReadsBack Kind.toData (Kind.ofData? level) := by
  intro k d h
  cases k with
  | union members =>
    obtain ⟨gs, rfl, htag⟩ := h.tagged? "kind" rfl level _
    obtain ⟨ws, hws, hfields⟩ := h.fields? ["members"] rfl
    rcases hfields with _ | ⟨hlist, _ | _⟩
    rw [Kind.ofData?, htag]
    simp only [hws, readsBack_texts members _ hlist, Option.map_some]
  | record fields =>
    obtain ⟨gs, rfl, htag⟩ := h.tagged? "kind" rfl level _
    obtain ⟨ws, hws, hfields⟩ := h.fields? ["fields"] rfl
    rcases hfields with _ | ⟨hlist, _ | _⟩
    rw [Kind.ofData?, htag]
    simp only [hws, readsBack_list (Field.readsBack .nested) fields _ hlist, Option.map_some]
  | noInput =>
    obtain ⟨gs, rfl, htag⟩ := h.tagged? "kind" rfl level _
    rw [Kind.ofData?, htag]
    rfl
  | operation request returns =>
    obtain ⟨gs, rfl, htag⟩ := h.tagged? "kind" rfl level _
    obtain ⟨ws, hws, hfields⟩ := h.fields? ["request", "returns"] rfl
    rcases hfields with _ | ⟨hrequest, _ | ⟨hreturns, _ | _⟩⟩
    rw [Kind.ofData?, htag]
    simp only [hws, Request.readsBack .nested request _ hrequest,
      TypeExpr.readsBack .nested returns _ hreturns]
    rfl

theorem Entity.readsBack : ReadsBack Entity.toData Entity.ofData? := by
  intro e d h
  obtain ⟨ws, hws, hfields⟩ := h.fields? ["name", "description", "kind"] rfl
  rcases hfields with _ | ⟨hname, _ | ⟨hdescription, _ | ⟨hkind, _ | _⟩⟩⟩
  rw [Entity.ofData?, hws]
  simp only [readsBack_text _ _ hname, readsBack_texts _ _ hdescription,
    Kind.readsBack .top _ _ hkind]
  rfl

theorem Registry.Entry.readsBack : ReadsBack Registry.Entry.toData Registry.Entry.ofData? := by
  intro e d h
  obtain ⟨ws, hws, hfields⟩ := h.fields? ["operation", "request_shape", "returns"] rfl
  rcases hfields with _ | ⟨hoperation, _ | ⟨hrequest, _ | ⟨hreturns, _ | _⟩⟩⟩
  rw [Registry.Entry.ofData?, hws]
  simp only [readsBack_text _ _ hoperation, readsBack_text _ _ hrequest,
    TypeExpr.readsBack .top _ _ hreturns]
  rfl

theorem Registry.readsBack : ReadsBack Registry.toData Registry.ofData? := by
  intro r d h
  obtain ⟨ws, hws, hfields⟩ := h.fields? ["entries"] rfl
  rcases hfields with _ | ⟨hentries, _ | _⟩
  rw [Registry.ofData?, hws]
  simp only [readsBack_list Registry.Entry.readsBack r.entries _ hentries, Option.map_some]

end DocTypes
