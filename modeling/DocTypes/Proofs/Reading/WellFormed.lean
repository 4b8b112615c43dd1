/-
  The entities of a page are well formed, whatever its markup is: names are identifiers, operations
  are those whose names start with a lower-case letter, unions have members, and types are of the
  forms that can be declared. So of all findings only repeated names remain.
-/
import DocTypes.Proofs.Phrase.FieldType
import DocTypes.Proofs.Reading.Entities
import DocTypes.Proofs.Type.Finding

namespace DocTypes

open Text Content Page Phrase

/-! ## What can be declared -/

/-- A field with an identifier for its name and a type that can be declared. -/
structure Field.WellFormed (f : Field) : Prop where
  isIdentifier_name : isIdentifier f.name.toList = true
  isFieldType : f.type.IsFieldType

/-- What the request of an operation may be. -/
inductive Request.WellFormed : Request → Prop
  | noInput : WellFormed noInput
  | record {fs : List Field} : (∀ f ∈ fs, f.WellFormed) → WellFormed (record fs)

/-- What a kind is made of: names that are identifiers, fields, a request and a result. -/
inductive Kind.WellFormed : Kind → Prop
  | union {ms : List String} : ms ≠ [] → (∀ m ∈ ms, isIdentifier m.toList = true) →
      WellFormed (union ms)
  | record {fs : List Field} : (∀ f ∈ fs, f.WellFormed) → WellFormed (record fs)
  | noInput : WellFormed noInput
  | operation {r : Request} {t : TypeExpr} : r.WellFormed → t.IsResult →
      WellFormed (operation r t)

/-- An entity that can be declared. -/
structure Entity.WellFormed (e : Entity) : Prop where
  isIdentifier_name : isIdentifier e.name.toList = true
  /-- Operations have a lower-case letter in front of their names, and nothing else has. -/
  isOperation_iff : e.isOperation = true ↔ e.name.toList.head?.any Char.isLower = true
  kind : e.kind.WellFormed

/-- An identifier has no blanks around it. -/
theorem Entity.WellFormed.key_eq {e : Entity} (h : e.WellFormed) : e.key = e.name := by
  let n : Identifier := ⟨e.name.toList, h.isIdentifier_name⟩
  rw [Entity.key, show trim e.name.toList = e.name.toList from n.toPlain.plain.trim_eq,
    String.ofList_toList]

/-- A well-formed entity has a name, and no empty union. -/
theorem Entity.WellFormed.isSound {e : Entity} (h : e.WellFormed) : e.IsSound where
  key_isEmpty := by
    have hne : e.name ≠ "" := by
      intro hempty
      have := h.isIdentifier_name
      rw [hempty] at this
      cases this
    rw [h.key_eq]
    simpa using hne
  kind_ne := by
    intro hkind
    have := h.kind
    rw [hkind] at this
    cases this with
    | union hne => exact hne rfl

/-! ## Blocks -/

theorem isIdentifier_of_mem_blocks {page : Text} {b : Block} (h : b ∈ blocks page) :
    isIdentifier b.name = true := by
  have hsections : ∀ ls : List Text, ∀ s ∈ sectionsOfLines ls, isIdentifier s.name = true := by
    intro ls
    induction ls with
    | nil => intro s hs; cases hs
    | cons l ls ih =>
      intro s hs
      rw [sectionsOfLines] at hs
      split at hs
      · next name hname =>
        rcases List.mem_cons.1 hs with rfl | hs
        · unfold sectionName? at hname
          dsimp only at hname
          split at hname
          · next htitle =>
            cases hname
            exact (Bool.and_eq_true_iff.1 htitle).2
          · cases hname
        · exact ih s hs
      · exact ih s hs
  obtain ⟨f, hf, rfl⟩ := List.mem_map.1 h
  obtain ⟨s, hs, rfl⟩ := List.mem_map.1 hf
  exact hsections _ s hs

theorem wellFormed_of_mem_fields {b : Block} {f : Field} (h : f ∈ b.fields) : f.WellFormed := by
  obtain ⟨r, hr, rfl⟩ := List.mem_map.1 h
  obtain ⟨l, -, hrow⟩ := exists_rowOf_of_mem_fieldRows hr
  refine ⟨?_, isFieldType_fieldType r.typePhrase r.description⟩
  show isIdentifier (String.ofList r.name).toList = true
  rw [String.toList_ofList]
  exact hrow.isIdentifier_name

/-- A block describes a well-formed kind, if the result is one. -/
theorem KindOf.wellFormed {b : Block} {returns : TypeExpr} {k : Kind} (h : KindOf b returns k)
    (hreturns : returns.IsResult) : k.WellFormed := by
  have hfields : ∀ f ∈ b.fields, f.WellFormed := fun f hf => wellFormed_of_mem_fields hf
  cases h with
  | union _ _ hne =>
    refine .union (by simpa using hne) fun m hm => ?_
    obtain ⟨n, hn, rfl⟩ := List.mem_map.1 hm
    rw [String.toList_ofList]
    exact isIdentifier_of_mem_bareNames hn
  | record => exact .record hfields
  | noInput => exact .noInput
  | operation => exact .operation (.record hfields) hreturns
  | operationNoInput => exact .operation .noInput hreturns

theorem Describes.wellFormed {b : Block} {returns : TypeExpr} {e : Entity}
    (h : Describes b returns e) (hname : isIdentifier b.name = true)
    (hreturns : returns.IsResult) : e.WellFormed where
  isIdentifier_name := by rw [h.name_eq, String.toList_ofList]; exact hname
  isOperation_iff := by
    rw [h.isOperation_eq, h.name_eq, String.toList_ofList]
    cases b.name with
    | nil => exact Iff.rfl
    | cons c s => exact Iff.rfl
  kind := h.kind.wellFormed hreturns

/-! ## Pages -/

theorem wellFormed_entities {page : Text} {es : List Entity}
    (h : (Reading.ofPage page).entities = .ok es) : ∀ e ∈ es, e.WellFormed := by
  intro e he
  obtain ⟨b, hb, t, ht, hdescribes⟩ := exists_describes h he
  exact hdescribes.wellFormed (isIdentifier_of_mem_blocks hb) ht

/-- **Main theorem.** All entities of a page are well formed. So among the entities only repeated
names and repeated fields are found, and no operation is missing from the registry. -/
theorem Reading.wellFormed_ofPage {page : Text} {es : List Entity}
    (h : (Reading.ofPage page).entities = .ok es) :
    (∀ e ∈ es, e.WellFormed) ∧ (∀ f ∈ Entity.findings es, f.IsRepeat) ∧
      ∀ o, Finding.unregisteredOperation o ∉ (Registry.ofEntities es).findings es := by
  have hes := wellFormed_entities h
  exact ⟨hes, fun f hf => Entity.isRepeat_of_mem_findings (fun e he => (hes e he).isSound) hf,
    Registry.unregistered_notMem_findings es⟩

/-- Of two operations of one name the second one, with a fallback for its array, repeats a name. -/
theorem wellFormed_ofPage_repeated :
    let page := ("<h4>getAll</h4>Returns an Array of Gifts, otherwise True.<table><tr>" ++
      "<td>kind</td><td>Array of String or Integer</td><td>one of “a”</td></tr></table>" ++
      "<h4>getAll</h4>").toList
    ∃ es, (Reading.ofPage page).entities = .ok es ∧ (∀ e ∈ es, e.WellFormed) ∧
      Entity.findings es = [.duplicateEntity "getAll"] := by
  intro page
  have hfindings : (Reading.ofPage page).entities.toOption.map Entity.findings =
      some [.duplicateEntity "getAll"] := by decide +kernel
  cases h : (Reading.ofPage page).entities with
  | error e => rw [h] at hfindings; cases hfindings
  | ok es =>
    obtain ⟨hes, -, -⟩ := Reading.wellFormed_ofPage h
    rw [h] at hfindings
    exact ⟨es, rfl, hes, Option.some.inj hfindings⟩

end DocTypes
