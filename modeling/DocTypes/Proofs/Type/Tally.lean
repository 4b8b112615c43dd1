/-
  How often each finding is made. Repeated names are counted once less than they occur
  (`count_repeats`), and what is found in one entity is counted on its own (`count_within`), so the
  count of a finding in a list of entities is the sum of theirs (`count_findings`). No count
  depends on the order of entities, fields or entries, so another order only reorders the findings
  (`SameUpToOrder.findings_perm`).
-/
import DocTypes.Proofs.Type.Finding
import Mathlib.Algebra.GroupWithZero.Nat
import Mathlib.Data.List.Count
import Mathlib.Data.List.Forall2

namespace DocTypes

/-- What is repeated is found each time, or each time but the first. -/
theorem count_repeats {α : Type} [DecidableEq α] (seen l : List α) (a : α) :
    (repeats seen l).count a = if a ∈ seen then l.count a else l.count a - 1 := by
  induction l generalizing seen with
  | nil => simp [repeats]
  | cons b l ih =>
    rw [repeats]
    by_cases hab : b = a
    · subst hab
      split
      · next hb => rw [List.count_cons_self, List.count_cons_self, ih, if_pos hb]
      · next hb => rw [ih, if_pos List.mem_cons_self, List.count_cons_self, Nat.add_sub_cancel]
    · have hcount : (b :: l).count a = l.count a := List.count_cons_of_ne hab
      rw [hcount]
      split
      · rw [List.count_cons_of_ne hab, ih]
      · rw [ih]
        simp [Ne.symm hab]

/-- How often something is repeated does not depend on the order. -/
theorem repeats_perm {α : Type} [DecidableEq α] {l l' : List α} (h : l.Perm l') (seen : List α) :
    (repeats seen l).Perm (repeats seen l') :=
  List.perm_iff_count.2 fun a => by rw [count_repeats, count_repeats, h.count_eq]

theorem count_map_eq_zero {α : Type} {make : α → Finding} {f : Finding} (hf : ∀ a, make a ≠ f)
    (l : List α) : (l.map make).count f = 0 := by
  rw [List.count_eq_zero, List.mem_map]
  rintro ⟨a, -, ha⟩
  exact hf a ha

namespace Entity

/-! ## Counts -/

/-- The entities of a name. A blank is no name. -/
def named (n : String) (es : List Entity) : List Entity :=
  es.filter fun e => e.key = n ∧ n ≠ ""

theorem named_append (n : String) (es es' : List Entity) :
    named n (es ++ es') = named n es ++ named n es' :=
  List.filter_append es es'

/-- How often a finding is to be made on entities. -/
def tally (es : List Entity) : Finding → Nat
  | .emptyEntityName => es.countP fun e => e.key = ""
  | .duplicateEntity n => (named n es).length - 1
  | .emptyUnion n => (named n es).countP fun e => e.kind.isEmptyUnion
  | .duplicateField n f => ((named n es).map fun e => (e.fields.map Field.name).count f - 1).sum
  | .duplicateOperation _ | .unregisteredOperation _ => 0

/-- Apart from repeated names, what is found in one entity does not depend on the others. -/
theorem tally_append (es es' : List Entity) {f : Finding} (hf : ∀ n, f ≠ .duplicateEntity n) :
    tally (es ++ es') f = tally es f + tally es' f := by
  cases f with
  | emptyEntityName => exact List.countP_append
  | duplicateEntity n => exact absurd rfl (hf n)
  | duplicateField n f => simp only [tally, named_append, List.map_append, List.sum_append]
  | emptyUnion n => simp only [tally, named_append, List.countP_append]
  | _ => rfl

/-- Repeated fields are counted for the entity of that name. -/
theorem count_map_duplicateField (key : String) (l : List String) (n f : String) :
    (l.map (Finding.duplicateField key)).count (.duplicateField n f) =
      if key = n then l.count f else 0 := by
  split
  · next hkey =>
    subst hkey
    exact List.count_map_of_injective l _ (fun _ _ h => (Finding.duplicateField.inj h).2) f
  · next hkey => exact count_map_eq_zero (fun _ h => hkey (Finding.duplicateField.inj h).1) l

/-- In one entity each finding is made as often as it is to be made there. -/
theorem count_within (e : Entity) {f : Finding} (hf : ∀ n, f ≠ .duplicateEntity n) :
    e.within.count f = tally [e] f := by
  rw [within]
  by_cases hkey : e.key = ""
  · rw [if_pos hkey]
    have hnone : ∀ n, named n [e] = [] := fun n => by simp [named, hkey, eq_comm]
    cases f with
    | emptyEntityName => simp [tally, hkey]
    | duplicateEntity n => exact absurd rfl (hf n)
    | _ => simp [tally, hnone]
  · rw [if_neg hkey, ownFindings_eq, List.count_append]
    have hnamed : ∀ n, named n [e] = if e.key = n then [e] else [] := fun n => by
      by_cases h : e.key = n
      · simp [named, h, h ▸ hkey]
      · simp [named, h]
    cases f with
    | duplicateEntity n => exact absurd rfl (hf n)
    | duplicateField n f =>
      rw [count_map_duplicateField, count_repeats, if_neg List.not_mem_nil, tally, hnamed]
      split <;> split <;> simp
    | emptyUnion n =>
      rw [count_map_eq_zero (by simp), tally, hnamed]
      split <;> split <;> simp_all
    | _ =>
      rw [count_map_eq_zero (by simp)]
      split <;> simp [tally, hkey]

theorem count_flatMap_within (es : List Entity) {f : Finding} (hf : ∀ n, f ≠ .duplicateEntity n) :
    (es.flatMap within).count f = tally es f := by
  induction es with
  | nil => cases f <;> rfl
  | cons e es ih =>
    rw [List.flatMap_cons, List.count_append, ih, count_within e hf, ← tally_append _ _ hf,
      List.singleton_append]

theorem duplicateEntity_notMem_within (e : Entity) (n : String) :
    Finding.duplicateEntity n ∉ e.within := by
  rw [within]
  split
  · simp
  · rw [ownFindings_eq]
    split <;> simp

theorem count_names (es : List Entity) (n : String) :
    (names es).count n = (named n es).length := by
  have hnamed : ∀ e : Entity, (e.key == n && decide (e.key ≠ "")) = decide (e.key = n ∧ n ≠ "") :=
    fun e => by
      by_cases h : e.key = n <;> simp [h]
  rw [names, List.count, List.countP_filter, List.countP_map, named, ← List.countP_eq_length_filter]
  exact List.countP_congr fun e _ => by simp only [Function.comp, hnamed]

/-- Every finding on entities is made as often as it is to be made. -/
theorem count_findings (es : List Entity) (f : Finding) : (findings es).count f = tally es f := by
  rw [(findings_perm es).count_eq, List.count_append]
  by_cases hf : ∃ n, f = .duplicateEntity n
  · obtain ⟨n, rfl⟩ := hf
    have hwithin : (es.flatMap within).count (.duplicateEntity n) = 0 := by
      rw [List.count_eq_zero, List.mem_flatMap]
      rintro ⟨e, -, hmem⟩
      exact duplicateEntity_notMem_within e n hmem
    rw [hwithin, List.count_map_of_injective _ _ fun _ _ => Finding.duplicateEntity.inj,
      count_repeats, if_neg List.not_mem_nil, count_names, tally, Nat.add_zero]
  · rw [count_map_eq_zero fun n h => hf ⟨n, h.symm⟩, count_flatMap_within es (not_exists.1 hf),
      Nat.zero_add]

end Entity

namespace Registry

/-- How often a finding is to be made on a registry for the entities. -/
def tally (r : Registry) (es : List Entity) : Finding → Nat
  | .duplicateOperation o => r.operations.count o - 1
  | .unregisteredOperation n =>
    if n ∈ r.operations then 0 else es.countP fun e => e.isOperation && e.name = n
  | _ => 0

/-- Every finding on a registry is made as often as it is to be made. -/
theorem count_findings (r : Registry) (es : List Entity) (f : Finding) :
    (r.findings es).count f = r.tally es f := by
  rw [findings, List.count_append]
  cases f with
  | duplicateOperation o =>
    rw [List.count_map_of_injective _ _ fun _ _ => Finding.duplicateOperation.inj, count_repeats,
      if_neg List.not_mem_nil, count_map_eq_zero (by simp), tally, Nat.add_zero]
  | unregisteredOperation n =>
    rw [count_map_eq_zero (by simp), Nat.zero_add, List.count, List.countP_map, List.countP_filter,
      List.countP_filter, tally]
    split
    · next hentry =>
      refine List.countP_eq_zero.2 fun e _ h => ?_
      simp only [Function.comp, beq_iff_eq, Bool.and_eq_true, decide_eq_true_eq] at h
      exact h.1.2 (Finding.unregisteredOperation.inj h.1.1 ▸ hentry)
    · next hentry =>
      refine List.countP_congr fun e _ => ?_
      simp only [Function.comp, beq_iff_eq, Bool.and_eq_true, decide_eq_true_eq,
        Finding.unregisteredOperation.injEq]
      constructor
      · rintro ⟨⟨hname, -⟩, hop⟩
        exact ⟨hop, hname⟩
      · rintro ⟨hop, rfl⟩
        exact ⟨⟨rfl, hentry⟩, hop⟩
  | _ => exact congrArg₂ (· + ·) (count_map_eq_zero (by simp) _) (count_map_eq_zero (by simp) _)

end Registry

/-! ## Order -/

/-- The kinds are the same, but for the order of fields. -/
inductive Kind.Reorders : Kind → Kind → Prop
  | refl (k : Kind) : Reorders k k
  | record {fs fs' : List Field} : fs.Perm fs' → Reorders (record fs) (record fs')
  | request {fs fs' : List Field} {t : TypeExpr} : fs.Perm fs' →
      Reorders (operation (.record fs) t) (operation (.record fs') t)

namespace Entity

/-- The entities are the same, but for the order of fields. -/
structure Reorders (e e' : Entity) : Prop where
  name_eq : e.name = e'.name
  description_eq : e.description = e'.description
  kind : e.kind.Reorders e'.kind

/-- The lists of entities are the same, but for the order of entities, and of fields in them. -/
def SameUpToOrder (es es' : List Entity) : Prop :=
  ∃ mid, es.Perm mid ∧ List.Forall₂ Reorders mid es'

namespace Reorders

variable {e e' : Entity}

theorem key_eq (h : e.Reorders e') : e.key = e'.key := by
  rw [key, key, h.name_eq]

theorem isOperation_eq (h : e.Reorders e') : e.isOperation = e'.isOperation := by
  have hkind : ∀ {k k' : Kind}, k.Reorders k' → k.isOperation = k'.isOperation := by
    rintro _ _ (_ | _ | _) <;> rfl
  exact hkind h.kind

theorem isEmptyUnion_eq (h : e.Reorders e') : e.kind.isEmptyUnion = e'.kind.isEmptyUnion := by
  have hkind : ∀ {k k' : Kind}, k.Reorders k' → k.isEmptyUnion = k'.isEmptyUnion := by
    rintro _ _ (_ | _ | _) <;> rfl
  exact hkind h.kind

theorem fields_perm (h : e.Reorders e') : e.fields.Perm e'.fields := by
  obtain ⟨name, description, kind⟩ := e
  obtain ⟨name', description', kind'⟩ := e'
  cases h.kind with
  | refl => rfl
  | record hfields => exact hfields
  | request hfields => exact hfields

/-- In an entity whose fields are put into another order the same is found. -/
theorem within_perm (h : e.Reorders e') : e.within.Perm e'.within := by
  rw [within, within, h.key_eq, ownFindings_eq, ownFindings_eq, h.isEmptyUnion_eq]
  split
  · rfl
  · exact ((repeats_perm (h.fields_perm.map _) []).map _).append_left _

end Reorders

namespace SameUpToOrder

variable {es es' : List Entity}

theorem flatMap_perm {β : Type} (h : SameUpToOrder es es') {g : Entity → List β}
    (hg : ∀ {e e' : Entity}, e.Reorders e' → (g e).Perm (g e')) :
    (es.flatMap g).Perm (es'.flatMap g) := by
  obtain ⟨mid, hperm, hall⟩ := h
  refine (hperm.flatMap_right g).trans ?_
  clear hperm
  induction hall with
  | nil => rfl
  | cons he _ ih => exact (hg he).append ih

theorem map_perm {β : Type} (h : SameUpToOrder es es') {g : Entity → β}
    (hg : ∀ {e e' : Entity}, e.Reorders e' → g e = g e') : (es.map g).Perm (es'.map g) := by
  rw [List.map_eq_flatMap, List.map_eq_flatMap]
  exact h.flatMap_perm fun he => by rw [hg he]

theorem findings_perm (h : SameUpToOrder es es') : (findings es).Perm (findings es') := by
  have hnames : (names es).Perm (names es') := (h.map_perm Reorders.key_eq).filter _
  refine (Entity.findings_perm es).trans (.trans ?_ (Entity.findings_perm es').symm)
  exact ((repeats_perm hnames []).map _).append (h.flatMap_perm Reorders.within_perm)

end SameUpToOrder

end Entity

theorem Registry.findings_perm {r r' : Registry} {es es' : List Entity}
    (hr : r.entries.Perm r'.entries) (hes : Entity.SameUpToOrder es es') :
    (r.findings es).Perm (r'.findings es') := by
  have hoperations : r.operations.Perm r'.operations := hr.map _
  refine List.perm_iff_count.2 fun f => ?_
  rw [count_findings, count_findings]
  cases f with
  | duplicateOperation o => rw [tally, tally, hoperations.count_eq]
  | unregisteredOperation n =>
    have hcount : es.countP (fun e => e.isOperation && e.name = n) =
        es'.countP fun e => e.isOperation && e.name = n := by
      have := (hes.map_perm fun he => congrArg₂ (fun op (name : String) => op && decide (name = n))
        he.isOperation_eq he.name_eq).countP_eq id
      rwa [List.countP_map, List.countP_map] at this
    rw [tally, tally, hcount]
    simp only [hoperations.mem_iff]
  | _ => rfl

/-- **Main theorem.** What is found is exactly what is wrong: each fault as often as it is there,
in any order of entities, fields and entries. -/
theorem findings_exact (es : List Entity) (r : Registry) :
    (∀ f, (Entity.findings es).count f = Entity.tally es f) ∧
    (∀ f, (r.findings es).count f = r.tally es f) ∧
    (∀ es' (r' : Registry), Entity.SameUpToOrder es es' → r.entries.Perm r'.entries →
      (Entity.findings es).Perm (Entity.findings es') ∧ (r.findings es).Perm (r'.findings es')) ∧
    (Entity.findings es = [] ↔
      (es.map Entity.key).Nodup ∧ ∀ e ∈ es, e.IsSound ∧ e.HasDistinctFields) ∧
    (r.findings es = [] ↔
      r.operations.Nodup ∧ ∀ e ∈ es, e.isOperation = true → e.name ∈ r.operations) :=
  ⟨Entity.count_findings es, r.count_findings es,
    fun _ _ hes hr => ⟨hes.findings_perm, Registry.findings_perm hr hes⟩,
    Entity.findings_eq_nil_iff, Registry.findings_eq_nil_iff⟩

theorem findings_exact_shuffled :
    let id : Field := ⟨"id", false, .primitive .integer, ""⟩
    let text : Field := ⟨"text", true, .primitive .string, ""⟩
    let union : Entity := ⟨" Message", [], .union []⟩
    let blank : Entity := ⟨" ", [], .noInput⟩
    let es := [⟨"Message", [], .record [id, text, id]⟩, blank, union]
    let es' := [union, ⟨"Message", [], .record [text, id, id]⟩, blank]
    (Entity.findings es = [.duplicateField "Message" "id", .emptyEntityName,
      .duplicateEntity "Message", .emptyUnion "Message"]) ∧
    (Entity.findings es).Perm (Entity.findings es') := by
  intro id text union blank es es'
  have hfields : [id, text, id].Perm [text, id, id] := .swap _ _ _
  have hes : Entity.SameUpToOrder es es' := by
    refine ⟨[union, ⟨"Message", [], .record [id, text, id]⟩, blank], ?_, ?_⟩
    · exact ((List.Perm.swap _ _ _).cons _).trans (.swap _ _ _)
    · exact .cons ⟨rfl, rfl, .refl _⟩ (.cons ⟨rfl, rfl, .record hfields⟩
        (.cons ⟨rfl, rfl, .refl _⟩ .nil))
  exact ⟨by decide +kernel, ((findings_exact es {}).2.2.1 es' {} hes (.refl _)).1⟩

end DocTypes
