/-
  What findings say. Up to order they are the repeated names, and what is found within each entity
  (`findings_perm`). So among entities with names and unions with members only repeated names are
  found (`isRepeat_of_mem_findings`), and nothing is found exactly where every entity is such, and
  the names differ, as do those of the fields within each entity (`findings_eq_nil_iff`). The
  registry of a list of entities has an entry for each of its operations, so only repeated entries
  are found in it (`findings_ofEntities`), and none where the names differ.
-/
import DocTypes.Type.Finding

namespace DocTypes

open Text

theorem repeats_eq_nil_iff {α : Type} [DecidableEq α] {seen l : List α} :
    repeats seen l = [] ↔ l.Nodup ∧ ∀ a ∈ l, a ∉ seen := by
  induction l generalizing seen with
  | nil => simp [repeats]
  | cons a l ih =>
    rw [repeats, List.nodup_cons, List.forall_mem_cons]
    split
    · next ha => simp [ha]
    · next ha =>
      rw [ih]
      constructor
      · rintro ⟨hl, hseen⟩
        exact ⟨⟨fun hmem => hseen a hmem List.mem_cons_self, hl⟩, ha,
          fun b hb hmem => hseen b hb (List.mem_cons_of_mem a hmem)⟩
      · rintro ⟨⟨hal, hl⟩, -, hseen⟩
        refine ⟨hl, fun b hb hmem => ?_⟩
        rcases List.mem_cons.1 hmem with rfl | hmem
        · exact hal hb
        · exact hseen b hb hmem

/-- What counts as a repeat depends on what has been seen, and not on its order. -/
theorem repeats_congr {α : Type} [DecidableEq α] {seen seen' : List α}
    (h : ∀ a, a ∈ seen ↔ a ∈ seen') (l : List α) : repeats seen l = repeats seen' l := by
  induction l generalizing seen seen' with
  | nil => rfl
  | cons a l ih =>
    have hcons : ∀ b, b ∈ a :: seen ↔ b ∈ a :: seen' := fun b => by
      rw [List.mem_cons, List.mem_cons, h]
    rw [repeats, repeats, ih h, ih hcons]
    simp only [h]

/-- The finding is one of a name that is repeated in a list of entities. -/
inductive Finding.IsRepeat : Finding → Prop
  | entity (name : String) : IsRepeat (duplicateEntity name)
  | field (entity field : String) : IsRepeat (duplicateField entity field)

/-- Is it a union without members? -/
def Kind.isEmptyUnion : Kind → Bool
  | union members => members.isEmpty
  | _ => false

theorem Kind.isEmptyUnion_iff {k : Kind} : k.isEmptyUnion = true ↔ k = .union [] := by
  cases k <;> simp [isEmptyUnion]

namespace Entity

/-- The entity has a name, and is no union without members. -/
structure IsSound (e : Entity) : Prop where
  key_isEmpty : e.key.isEmpty = false
  kind_ne : e.kind ≠ .union []

/-- The names of the fields differ. -/
def HasDistinctFields (e : Entity) : Prop := (e.fields.map Field.name).Nodup

/-- Within an entity the findings are of a union without members, and of repeated fields. -/
theorem ownFindings_eq (key : String) (e : Entity) :
    e.ownFindings key = (if e.kind.isEmptyUnion then [Finding.emptyUnion key] else []) ++
      (repeats [] (e.fields.map Field.name)).map (Finding.duplicateField key) := by
  obtain ⟨name, description, kind⟩ := e
  cases kind with
  | union members => cases members <;> rfl
  | _ => rfl

/-- What is found in one entity: that it has no name, or else what is wrong within it. -/
def within (e : Entity) : List Finding :=
  if e.key = "" then [.emptyEntityName] else e.ownFindings e.key

/-- The names that there are, in order. -/
def names (es : List Entity) : List String := (es.map key).filter (· ≠ "")

theorem names_cons (e : Entity) (es : List Entity) :
    names (e :: es) = if e.key = "" then names es else e.key :: names es := by
  unfold names
  rw [List.map_cons, List.filter_cons]
  by_cases h : e.key = "" <;> simp [h]

/-- Repeated names are found beside what is found in each entity. -/
theorem findingsFrom_perm (seen : List String) (es : List Entity) :
    (findingsFrom seen es).Perm
      ((repeats seen (names es)).map Finding.duplicateEntity ++ es.flatMap within) := by
  induction es generalizing seen with
  | nil => rfl
  | cons e es ih =>
    rw [findingsFrom, names_cons, List.flatMap_cons, within]
    by_cases hkey : e.key = ""
    · rw [if_pos (by rw [hkey]; rfl), if_pos hkey, if_pos hkey]
      exact ((ih seen).cons _).trans List.perm_middle.symm
    · rw [if_neg (by simpa using hkey), if_neg hkey, if_neg hkey, repeats]
      have hrest : ∀ dup rest : List Finding,
          (findingsFrom (e.key :: seen) es).Perm (rest ++ es.flatMap within) →
          (dup ++ e.ownFindings e.key ++ findingsFrom (e.key :: seen) es).Perm
            (dup ++ rest ++ (e.ownFindings e.key ++ es.flatMap within)) := by
        intro dup rest h
        rw [List.append_assoc, List.append_assoc]
        refine .append_left dup ((h.append_left _).trans ?_)
        rw [← List.append_assoc, ← List.append_assoc]
        exact List.perm_append_comm.append_right _
      split
      · next hmem =>
        refine hrest [_] _ ?_
        -- the findings put the name in front of what was seen once more, which changes nothing
        have hseen : ∀ a, a ∈ seen ↔ a ∈ e.key :: seen := fun a => by
          rw [List.mem_cons, iff_or_self]
          rintro rfl
          exact hmem
        rw [repeats_congr hseen]
        exact ih (e.key :: seen)
      · exact hrest [] _ (ih (e.key :: seen))

theorem findings_perm (es : List Entity) : (findings es).Perm
    ((repeats [] (names es)).map Finding.duplicateEntity ++ es.flatMap within) :=
  findingsFrom_perm [] es

/-- Within a sound entity only repeated fields are found. -/
theorem IsSound.within_eq {e : Entity} (h : e.IsSound) :
    e.within = (repeats [] (e.fields.map Field.name)).map (Finding.duplicateField e.key) := by
  rw [within, if_neg (by simpa using h.key_isEmpty), ownFindings_eq,
    if_neg (fun hempty => h.kind_ne (Kind.isEmptyUnion_iff.1 hempty)), List.nil_append]

/-- Nothing is found in a sound entity whose fields differ in their names, and only there. -/
theorem within_eq_nil_iff {e : Entity} : e.within = [] ↔ e.IsSound ∧ e.HasDistinctFields := by
  have hfields : (repeats [] (e.fields.map Field.name)).map (Finding.duplicateField e.key) = [] ↔
      e.HasDistinctFields := by
    rw [List.map_eq_nil_iff, repeats_eq_nil_iff, HasDistinctFields]
    simp
  constructor
  · intro h
    have hsound : e.IsSound := by
      rw [within] at h
      split at h
      · cases h
      · next hkey =>
        rw [ownFindings_eq, List.append_eq_nil_iff] at h
        refine ⟨by simpa using hkey, fun hkind => ?_⟩
        rw [if_pos (Kind.isEmptyUnion_iff.2 hkind)] at h
        exact List.cons_ne_nil _ _ h.1
    exact ⟨hsound, hfields.1 (hsound.within_eq ▸ h)⟩
  · rintro ⟨hsound, hdistinct⟩
    rw [hsound.within_eq]
    exact hfields.2 hdistinct

/-- Among sound entities only repeated names are found. -/
theorem isRepeat_of_mem_findings {es : List Entity} (hes : ∀ e ∈ es, e.IsSound) {f : Finding}
    (hf : f ∈ findings es) : f.IsRepeat := by
  rcases List.mem_append.1 ((findings_perm es).mem_iff.1 hf) with hf | hf
  · obtain ⟨name, -, rfl⟩ := List.mem_map.1 hf
    exact .entity name
  · obtain ⟨e, he, hf⟩ := List.mem_flatMap.1 hf
    rw [(hes e he).within_eq] at hf
    obtain ⟨name, -, rfl⟩ := List.mem_map.1 hf
    exact .field e.key name

/-- Nothing is found where every entity is sound, and the names differ, as do those of the fields
of each entity. -/
theorem findings_eq_nil_iff {es : List Entity} : findings es = [] ↔
    (es.map key).Nodup ∧ ∀ e ∈ es, e.IsSound ∧ e.HasDistinctFields := by
  have hnames : (∀ e ∈ es, e.IsSound) → names es = es.map key := fun h =>
    List.filter_eq_self.2 fun n hn => by
      obtain ⟨e, he, rfl⟩ := List.mem_map.1 hn
      simpa using (h e he).key_isEmpty
  have hdistinct : (repeats [] (names es)).map Finding.duplicateEntity = [] ↔ (names es).Nodup := by
    rw [List.map_eq_nil_iff, repeats_eq_nil_iff]
    simp
  rw [← List.length_eq_zero_iff, (findings_perm es).length_eq, List.length_eq_zero_iff,
    List.append_eq_nil_iff, hdistinct, List.flatMap_eq_nil_iff]
  simp only [within_eq_nil_iff]
  exact and_congr_left fun h => by rw [hnames fun e he => (h e he).1]

end Entity

/-! ## Registries -/

namespace Registry

/-- Nothing is found where the entries differ, and every operation has one. -/
theorem findings_eq_nil_iff {r : Registry} {es : List Entity} : r.findings es = [] ↔
    r.operations.Nodup ∧ ∀ e ∈ es, e.isOperation = true → e.name ∈ r.operations := by
  rw [findings, List.append_eq_nil_iff, List.map_eq_nil_iff, List.map_eq_nil_iff,
    repeats_eq_nil_iff, List.filter_eq_nil_iff]
  simp

/-- The registry of entities lists their operations in order. -/
theorem operations_ofEntities (es : List Entity) :
    (ofEntities es).operations = (es.filter Entity.isOperation).map Entity.name := by
  unfold operations ofEntities
  induction es with
  | nil => rfl
  | cons e es ih =>
    rw [List.filterMap_cons, List.filter_cons, Entity.isOperation]
    unfold Entry.ofEntity?
    cases e.kind with
    | operation request returns => exact congrArg (e.name :: ·) ih
    | _ => exact ih

/-- No operation is without an entry, so only repeated entries are found. -/
theorem findings_ofEntities (es : List Entity) : (ofEntities es).findings es =
    (repeats [] (ofEntities es).operations).map Finding.duplicateOperation := by
  have hentry : (es.filter Entity.isOperation).filter
      (fun e => e.name ∉ (ofEntities es).operations) = [] := by
    rw [List.filter_eq_nil_iff]
    intro e he hmissing
    rw [operations_ofEntities, decide_eq_true_eq] at hmissing
    exact hmissing (List.mem_map_of_mem he)
  rw [findings, hentry, List.map_nil, List.append_nil]

theorem unregistered_notMem_findings (es : List Entity) (o : String) :
    Finding.unregisteredOperation o ∉ (ofEntities es).findings es := by
  rw [findings_ofEntities]
  intro h
  obtain ⟨n, -, h⟩ := List.mem_map.1 h
  cases h

/-- Where the names differ, nothing is found. -/
theorem findings_ofEntities_eq_nil {es : List Entity} (h : (es.map Entity.name).Nodup) :
    (ofEntities es).findings es = [] := by
  rw [findings_eq_nil_iff, operations_ofEntities]
  exact ⟨h.sublist (List.filter_sublist.map Entity.name), fun e he hop =>
    List.mem_map_of_mem (List.mem_filter.2 ⟨he, hop⟩)⟩

end Registry

end DocTypes
