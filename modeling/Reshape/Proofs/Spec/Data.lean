import Reshape.Proofs.Fields
import Reshape.Proofs.Spec.Height
import Reshape.Proofs.Spec.Token
import Reshape.Proofs.Value.Tree
import Reshape.Evaluator
import Reshape.Spec.Data

/-!
# Mappings and the data that describes them

Data describes a mapping unless one of its nodes is nothing, a truth value or a number, and a mapping
has data unless a literal occurs in it. Going to the other form and back loses nothing: from data
always, and from a mapping whenever no colon stands inside the pieces of its tokens.
-/

namespace Reshape

/-- A value that may stand in the data of a mapping. -/
def Value.IsMappingNode : Value → Prop
  | .string _ | .array _ | .object _ => True
  | .null | .bool _ | .number _ => False

namespace Spec

def HasDistinctKeys (spec : Spec) : Prop :=
  ∀ entries, Occurs (.fields entries) spec → (Fields.keys entries).Nodup

def IsColonFree (spec : Spec) : Prop :=
  ∀ token, Occurs (.filter token) spec → token.IsColonFree

variable {value : Value} {items : List Value} {members : Fields Value} {spec : Spec}
  {steps : List Spec} {entries : List (String × Spec)} {pointer : Pointer}

/-! ### Children one after the other -/

theorem ofItems_eq_mapM (pointer : Pointer) (index : Nat) (items : List Value) :
    ofItems pointer index items = (items.zipIdx index).mapM fun item =>
      ofValueAt (Nat.toDigits 10 item.2 :: pointer) item.1 := by
  induction items generalizing index with
  | nil => rfl
  | cons item rest ih =>
      rw [ofItems, ih, List.zipIdx_cons, List.mapM_cons]
      rfl

theorem ofFields_eq_mapM (pointer : Pointer) (members : Fields Value) :
    ofFields pointer members = members.mapM fun member =>
      (ofValueAt (escapeKey member.1 :: pointer) member.2).map (Prod.mk member.1) := by
  induction members with
  | nil => rfl
  | cons member rest ih =>
      rw [ofFields, ih, List.mapM_cons]
      cases ofValueAt (escapeKey member.1 :: pointer) member.2 <;> rfl

theorem toItems_eq_mapM (steps : List Spec) : toItems steps = steps.mapM toValue := by
  induction steps with
  | nil => rfl
  | cons step rest ih =>
      rw [toItems, ih, List.mapM_cons]
      rfl

theorem toFields_eq_foldlM (fields : Fields Value) (entries : List (String × Spec)) :
    toFields fields entries =
      entries.foldlM (fun fields entry => entry.2.toValue.map (fields.insert entry.1)) fields := by
  induction entries generalizing fields with
  | nil => rfl
  | cons entry rest ih =>
      rw [toFields, List.foldlM_cons]
      cases entry.2.toValue with
      | error error => rfl
      | ok value => exact ih (fields.insert entry.1 value)

theorem toFields_eq_mapM (hkeys : (Fields.keys entries).Nodup) :
    toFields [] entries = entries.mapM fun entry => entry.2.toValue.map (Prod.mk entry.1) := by
  rw [toFields_eq_foldlM]
  exact Fields.foldlM_insert_nil (fun entry : String × Spec => entry.2.toValue) hkeys

/-! ### From data -/

theorem ofValueAt_of_not_isMappingNode (hnode : ¬ value.IsMappingNode) (pointer : Pointer) :
    ofValueAt pointer value = notMapping pointer value := by
  cases value with
  | null | bool | number => rw [ofValueAt]
  | string | array | object => exact absurd trivial hnode

theorem exists_ofValueAt_iff_of_not_isMappingNode (hnode : ¬ value.IsMappingNode)
    (pointer : Pointer) :
    (∃ spec, ofValueAt pointer value = .ok spec) ↔
      ∀ node, Value.Occurs node value → node.IsMappingNode := by
  refine iff_of_false ?_ fun hall => hnode (hall value .here)
  rintro ⟨spec, hspec⟩
  rw [ofValueAt_of_not_isMappingNode hnode] at hspec
  cases hspec

theorem exists_ofValueAt_eq_ok_iff (value : Value) (pointer : Pointer) :
    (∃ spec, ofValueAt pointer value = .ok spec) ↔
      ∀ node, Value.Occurs node value → node.IsMappingNode := by
  induction value generalizing pointer with
  | null => exact exists_ofValueAt_iff_of_not_isMappingNode id pointer
  | bool flag => exact exists_ofValueAt_iff_of_not_isMappingNode id pointer
  | number n => exact exists_ofValueAt_iff_of_not_isMappingNode id pointer
  | string text =>
      refine iff_of_true ⟨.ofToken text, by rw [ofValueAt]⟩ fun node hnode => ?_
      rw [Value.occurs_string_iff.mp hnode]
      trivial
  | array items ih =>
      rw [ofValueAt, exists_map_eq_ok_iff, ofItems_eq_mapM, exists_mapM_eq_ok_iff]
      constructor
      · intro hitems node hnode
        rcases Value.occurs_array_iff.mp hnode with rfl | ⟨item, hmem, hnode⟩
        · trivial
        · have hmap : item ∈ (items.zipIdx 0).map Prod.fst := by rwa [List.zipIdx_map_fst]
          obtain ⟨indexed, hindexed, rfl⟩ := List.mem_map.mp hmap
          exact (ih indexed.1 hmem _).mp (hitems indexed hindexed) node hnode
      · intro hall indexed hindexed
        have hmem := List.fst_mem_of_mem_zipIdx hindexed
        exact (ih indexed.1 hmem _).mpr fun node hnode => hall node (.item hmem hnode)
  | object members ih =>
      rw [ofValueAt, exists_map_eq_ok_iff, ofFields_eq_mapM, exists_mapM_eq_ok_iff]
      simp only [exists_map_eq_ok_iff]
      constructor
      · intro hmembers node hnode
        rcases Value.occurs_object_iff.mp hnode with rfl | ⟨member, hmem, hnode⟩
        · trivial
        · exact (ih member hmem _).mp (hmembers member hmem) node hnode
      · intro hall member hmem
        exact (ih member hmem _).mpr fun node hnode => hall node (.member hmem hnode)

theorem toValue_of_ofValueAt (hkeys : value.HasDistinctKeys)
    (hof : ofValueAt pointer value = .ok spec) : spec.toValue = .ok value := by
  induction value generalizing pointer spec with
  | string text =>
      rw [ofValueAt] at hof
      cases hof
      rw [ofToken, toValue, Token.text_parse]
  | array items ih =>
      rw [ofValueAt, ofItems_eq_mapM] at hof
      obtain ⟨steps, hsteps, rfl⟩ := map_eq_ok_iff.mp hof
      have hpaired : List.Forall₂ (fun indexed step => toValue step = .ok indexed.1)
          (items.zipIdx 0) steps := by
        refine forall₂_imp_of_mem (fun indexed hindexed step hstep => ?_) (mapM_eq_ok_iff.mp hsteps)
        have hmem := List.fst_mem_of_mem_zipIdx hindexed
        exact ih indexed.1 hmem (hkeys.item hmem) hstep
      have hitems : List.Forall₂ (fun item step => toValue step = .ok item)
          ((items.zipIdx 0).map Prod.fst) steps := List.forall₂_map_left_iff.mpr hpaired
      rw [List.zipIdx_map_fst] at hitems
      rw [toValue, toItems_eq_mapM, mapM_eq_ok_iff.mpr hitems.flip]
      rfl
  | object members ih =>
      rw [ofValueAt, ofFields_eq_mapM] at hof
      obtain ⟨entries, hentries, rfl⟩ := map_eq_ok_iff.mp hof
      have hmembers : List.Forall₂ (fun member entry =>
          (toValue entry.2).map (Prod.mk entry.1) = .ok member) members entries := by
        refine forall₂_imp_of_mem (fun member hmem entry hentry => ?_) (mapM_eq_ok_iff.mp hentries)
        obtain ⟨hkey, hvalue⟩ := map_mk_eq_ok_iff.mp hentry
        exact map_mk_eq_ok_iff.mpr ⟨hkey.symm, ih member hmem (hkeys.member hmem) hvalue⟩
      have hsame : Fields.keys members = Fields.keys entries :=
        Fields.keys_eq_of_forall₂
          (hmembers.imp fun _ _ hmember => (map_mk_eq_ok_iff.mp hmember).1).flip
      have hdistinct : (Fields.keys entries).Nodup := hsame ▸ hkeys members .here
      rw [toValue, toFields_eq_mapM hdistinct, mapM_eq_ok_iff.mpr hmembers.flip]
      rfl
  | _ =>
      rw [ofValueAt] at hof
      cases hof

/-! ### To data -/

theorem exists_toValue_eq_ok_iff (spec : Spec) :
    (∃ value, spec.toValue = .ok value) ↔ ∀ literal, ¬ Occurs (.literal literal) spec := by
  induction spec with
  | filter token =>
      exact iff_of_true ⟨.string token.text, by rw [toValue]⟩ (by simp)
  | sequence steps ih =>
      rw [toValue, exists_map_eq_ok_iff, toItems_eq_mapM, exists_mapM_eq_ok_iff]
      constructor
      · intro hsteps literal hnode
        rcases occurs_sequence_iff.mp hnode with hself | ⟨step, hmem, hnode⟩
        · cases hself
        · exact (ih step hmem).mp (hsteps step hmem) literal hnode
      · intro hnone step hmem
        exact (ih step hmem).mpr fun literal hnode => hnone literal (.step hmem hnode)
  | fields entries ih =>
      have hentries : ∀ entry ∈ entries, ∀ fields : Fields Value,
          (∃ next, entry.2.toValue.map (fields.insert entry.1) = .ok next) ↔
            ∀ literal, ¬ Occurs (.literal literal) entry.2 := by
        intro entry hmem fields
        rw [exists_map_eq_ok_iff]
        exact ih entry hmem
      rw [toValue, exists_map_eq_ok_iff, toFields_eq_foldlM, exists_foldlM_eq_ok_iff hentries]
      constructor
      · intro hnone literal hnode
        rcases occurs_fields_iff.mp hnode with hself | ⟨entry, hmem, hnode⟩
        · cases hself
        · exact hnone entry hmem literal hnode
      · intro hnone entry hmem literal hnode
        exact hnone literal (.entry hmem hnode)
  | literal value =>
      refine iff_of_false ?_ fun hnone => hnone value .here
      rintro ⟨data, hdata⟩
      rw [toValue] at hdata
      cases hdata

theorem ofItems_eq_ok (hitems : List.Forall₂ (fun item step => ∀ pointer,
    ofValueAt pointer item = .ok step) items steps) (pointer : Pointer) (index : Nat) :
    ofItems pointer index items = .ok steps := by
  induction hitems generalizing index with
  | nil => rfl
  | cons hitem _ ih =>
      rw [ofItems, hitem, ih]
      rfl

theorem ofValueAt_of_toValue (hkeys : spec.HasDistinctKeys) (hfree : spec.IsColonFree)
    (hto : spec.toValue = .ok value) (pointer : Pointer) : ofValueAt pointer value = .ok spec := by
  induction spec generalizing value pointer with
  | filter token =>
      rw [toValue] at hto
      cases hto
      rw [ofValueAt, ofToken, Token.parse_text (hfree token .here)]
  | sequence steps ih =>
      rw [toValue, toItems_eq_mapM] at hto
      obtain ⟨items, hitems, rfl⟩ := map_eq_ok_iff.mp hto
      have hsteps : List.Forall₂ (fun step item => ∀ pointer, ofValueAt pointer item = .ok step)
          steps items := by
        refine forall₂_imp_of_mem (fun step hmem item hitem pointer => ?_) (mapM_eq_ok_iff.mp hitems)
        have hinner : step.HasDistinctKeys := fun entries hnode => hkeys entries (.step hmem hnode)
        have hplain : step.IsColonFree := fun token hnode => hfree token (.step hmem hnode)
        exact ih step hmem hinner hplain hitem pointer
      rw [ofValueAt, ofItems_eq_ok hsteps.flip]
      rfl
  | fields entries ih =>
      rw [toValue, toFields_eq_mapM (hkeys entries .here)] at hto
      obtain ⟨members, hmembers, rfl⟩ := map_eq_ok_iff.mp hto
      have hentries : List.Forall₂ (fun entry member =>
          (ofValueAt (escapeKey member.1 :: pointer) member.2).map (Prod.mk member.1) = .ok entry)
          entries members := by
        refine forall₂_imp_of_mem (fun entry hmem member hmember => ?_) (mapM_eq_ok_iff.mp hmembers)
        obtain ⟨hkey, hvalue⟩ := map_mk_eq_ok_iff.mp hmember
        have hinner : entry.2.HasDistinctKeys :=
          fun entries hnode => hkeys entries (.entry hmem hnode)
        have hplain : entry.2.IsColonFree := fun token hnode => hfree token (.entry hmem hnode)
        exact map_mk_eq_ok_iff.mpr ⟨hkey.symm, ih entry hmem hinner hplain hvalue _⟩
      rw [ofValueAt, ofFields_eq_mapM, mapM_eq_ok_iff.mpr hentries.flip]
      rfl
  | literal value =>
      rw [toValue] at hto
      cases hto

/-- **Mappings and their data are each other's forms.** A token shows what it was read from. Data
describes a mapping unless a node of it is neither text nor container, and is then given back by the
mapping, the order of keys included. A mapping has data unless a literal occurs in it, and is then
described by that data, if keys are distinct and no colon stands in a name or an argument. -/
theorem toValue_ofValue_inverse :
    (∀ text, (Token.parse text).text = text) ∧
    (∀ value : Value, value.HasDistinctKeys →
      ((∃ spec, ofValue value = .ok spec) ↔
        ∀ node, Value.Occurs node value → node.IsMappingNode) ∧
      ∀ spec, ofValue value = .ok spec → spec.toValue = .ok value) ∧
    ∀ spec : Spec,
      ((∃ value, spec.toValue = .ok value) ↔ ∀ literal, ¬ Occurs (.literal literal) spec) ∧
      ((∀ literal, ¬ Occurs (.literal literal) spec) → spec.HasDistinctKeys → spec.IsColonFree →
        (spec.toValue >>= ofValue) = .ok spec ∧
        ∀ (evaluator : Evaluator) (source : Value),
          (spec.toValue >>= ofValue >>= evaluator.evaluate source) =
            evaluator.evaluate source spec) := by
  refine ⟨Token.text_parse, fun value hkeys => ⟨exists_ofValueAt_eq_ok_iff value [],
    fun spec hof => toValue_of_ofValueAt hkeys hof⟩,
    fun spec => ⟨exists_toValue_eq_ok_iff spec, fun hnone hkeys hfree => ?_⟩⟩
  obtain ⟨value, hvalue⟩ := (exists_toValue_eq_ok_iff spec).mpr hnone
  have hback : (spec.toValue >>= ofValue) = .ok spec := by
    rw [hvalue]
    exact ofValueAt_of_toValue hkeys hfree hvalue []
  refine ⟨hback, fun evaluator source => ?_⟩
  rw [hback]
  rfl

/-- An empty key, empty arguments at the end of a token and an empty pipeline survive both ways. -/
theorem toValue_ofValue_inverse_empty_pieces :
    let value : Value := .object [("", .array [.string "get:x::", .array []])]
    let token : Token := ⟨"get", ["x", "", ""]⟩
    let spec : Spec := .fields [("", .sequence [.filter token, .sequence []])]
    value.HasDistinctKeys ∧ ofValue value = .ok spec ∧ spec.toValue = .ok value ∧
      (∀ literal, ¬ Occurs (.literal literal) spec) ∧ spec.HasDistinctKeys ∧ spec.IsColonFree ∧
      (spec.toValue >>= ofValue) = .ok spec := by
  intro value token spec
  obtain ⟨-, hvalue, hspec⟩ := toValue_ofValue_inverse
  have hkeys : value.HasDistinctKeys := by
    simp [value, Value.HasDistinctKeys, Fields.keys]
  have hnone : ∀ literal, ¬ Occurs (.literal literal) spec := by
    simp [spec]
  have hdistinct : spec.HasDistinctKeys := by
    simp [spec, HasDistinctKeys, Fields.keys]
  have hfree : spec.IsColonFree := by
    simp [spec, IsColonFree, token, Token.IsColonFree]
  have hof : ofValue value = .ok spec := rfl
  exact ⟨hkeys, hof, (hvalue value hkeys).2 spec hof, hnone, hdistinct, hfree,
    ((hspec spec).2 hnone hdistinct hfree).1⟩

end Spec

end Reshape
