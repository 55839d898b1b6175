import ScriptBench.Proofs.Json.ReadBack
import ScriptBench.Template.Json

/-! A template is read back from its own text.

Writing a template down loses nothing: every field is found again under its name, also those
that are left out when they have no value. So reading the text gives the template if it can be
put to use, and the flaw that validation finds in it if not; that the text is no JSON, or that
a field is of the wrong kind, is never what is wrong with it. -/
namespace ScriptBench

namespace Json

/-! ### Fields of records -/

/-- The member of a name is the value that was written under it. -/
theorem member_record {members : List (String × Json)} (h : (members.map (·.1)).Nodup)
    (name : String) :
    member name.toList (members.map fun (key, value) => (key.toList, value)) =
      some (members.lookup name) := by
  induction members with
  | nil => rfl
  | cons m members ih =>
    obtain ⟨key, value⟩ := m
    rw [List.map_cons, List.nodup_cons] at h
    by_cases hkey : key = name
    · have hothers : (members.map fun (key, value) => (key.toList, value)).filter
          (·.1 == name.toList) = [] := by
        rw [List.filter_eq_nil_iff]
        intro other hother
        obtain ⟨m, hm, rfl⟩ := List.mem_map.mp hother
        have hne : m.1 ≠ name := by
          rintro rfl
          exact h.1 (List.mem_map.mpr ⟨m, hm, hkey.symm⟩)
        simpa [String.toList_inj] using hne
      rw [member, List.map_cons, List.filter_cons_of_pos (by simp [hkey]), hothers]
      simp [hkey]
    · have hlookup : List.lookup name ((key, value) :: members) = members.lookup name := by
        rw [List.lookup_cons, beq_false_of_ne (Ne.symm hkey)]
      rw [hlookup, ← ih h.2, member, List.map_cons, List.filter_cons_of_neg, ← member]
      simpa [String.toList_inj] using hkey

theorem decode?_members (members : List (String × Json)) :
    (members.map fun (key, value) => (key.toList.map JsonPiece.ofChar, value)).mapM
        (fun (key, value) => (JsonPiece.decode? key).map (·, value)) =
      some (members.map fun (key, value) => (key.toList, value)) := by
  induction members with
  | nil => rfl
  | cons m members ih => simp [JsonPiece.decode?_map_ofChar, ih]

/-- A record has the fields that were written into it. -/
theorem fields?_record {members : List (String × Json)} (h : (members.map (·.1)).Nodup)
    (names : List String) :
    (record members).fields? (names.map String.toList) = some (names.map (members.lookup ·)) := by
  rw [record, fields?, decode?_members]
  show (names.map String.toList).mapM _ = _
  induction names with
  | nil => rfl
  | cons name names ih =>
    rw [List.map_cons, List.mapM_cons, member_record h, ih]
    rfl

theorem nat?_ofNat (n : Nat) : (ofNat n).nat? = some n := by
  have hread := Decimal.natural?_toDigits n
  rw [Decimal.natural?] at hread
  split at hread
  · rename_i hdigits
    rw [Bool.and_eq_true] at hdigits
    rw [ofNat, nat?, digits, if_pos hdigits.2, hread]
  · cases hread

theorem word32?_ofNat (n : UInt32) : word32? (ofNat n.toNat) = some n := by
  have hn : n.toNat < 0x100000000 := n.toNat_lt
  simp [word32?, nat?_ofNat, hn]

theorem word64?_ofNat (n : UInt64) : word64? (ofNat n.toNat) = some n := by
  have hn : n.toNat < wordCount64 := n.toNat_lt
  simp [word64?, nat?_ofNat, hn]

theorem optional?_ofNat (n : UInt32) : optional? word32? (ofNat n.toNat) = some (some n) :=
  congrArg (Option.map some) (word32?_ofNat n)

theorem string?_ofString (s : String) : string? (ofString s) = some s := by
  simp [string?, ofString, ofText, text?, JsonPiece.decode?_map_ofChar]

theorem list?_array {α : Type} {read : Json → Option α} {write : α → Json}
    (h : ∀ x, read (write x) = some x) (items : List α) :
    list? read (array (items.map write)) = some items := by
  rw [list?]
  induction items with
  | nil => rfl
  | cons x items ih => rw [List.map_cons, List.mapM_cons, h, ih]; rfl

/-! ### What is written is legible -/

theorem legible_ofString (s : String) : (ofString s).Legible := by
  refine .string fun p hp => ?_
  obtain ⟨c, -, rfl⟩ := List.mem_map.mp hp
  exact JsonPiece.legible_ofChar c

theorem legible_record {members : List (String × Json)} (h : ∀ m ∈ members, m.2.Legible) :
    (record members).Legible := by
  refine .object (fun m hm p hp => ?_) (fun m hm => ?_)
  · obtain ⟨⟨key, value⟩, -, rfl⟩ := List.mem_map.mp hm
    obtain ⟨c, -, rfl⟩ := List.mem_map.mp hp
    exact JsonPiece.legible_ofChar c
  · obtain ⟨⟨key, value⟩, hmember, rfl⟩ := List.mem_map.mp hm
    exact h _ hmember

theorem legible_array {α : Type} {write : α → Json} (h : ∀ x, (write x).Legible) (items : List α) :
    (array (items.map write)).Legible := by
  refine .array fun item hitem => ?_
  obtain ⟨x, -, rfl⟩ := List.mem_map.mp hitem
  exact h x

end Json

/-! ### Templates -/

theorem TemplateInput.ofJson?_toJson (i : TemplateInput) : ofJson? i.toJson = some i := by
  rw [ofJson?, toJson, Json.fields?_record (by simp)]
  simp [fieldNames, List.lookup_cons, Json.fieldOr, Json.word32?_ofNat, Json.word64?_ofNat,
    Json.string?_ofString]

theorem TemplateOutput.ofJson?_toJson (o : TemplateOutput) : ofJson? o.toJson = some o := by
  rw [ofJson?, toJson, Json.fields?_record (by simp)]
  simp [fieldNames, List.lookup_cons, Json.fieldOr, Json.word64?_ofNat, Json.string?_ofString]

theorem TemplateInput.legible_toJson (i : TemplateInput) : i.toJson.Legible := by
  refine Json.legible_record fun m hm => ?_
  simp only [List.mem_cons, List.not_mem_nil, or_false] at hm
  obtain rfl | rfl | rfl | rfl | rfl := hm
  · exact Json.legible_ofString _
  · exact .ofNat _
  · exact .ofNat _
  · exact Json.legible_ofString _
  · exact .ofNat _

theorem TemplateOutput.legible_toJson (o : TemplateOutput) : o.toJson.Legible := by
  refine Json.legible_record fun m hm => ?_
  simp only [List.mem_cons, List.not_mem_nil, or_false] at hm
  obtain rfl | rfl := hm
  · exact Json.legible_ofString _
  · exact .ofNat _

namespace Template

theorem legible_optionalMember {name : String} {value : Option UInt32} :
    ∀ m ∈ optionalMember name value, m.2.Legible := by
  cases value with
  | none => simp [optionalMember]
  | some n =>
    intro m hm
    rw [List.mem_singleton.mp hm]
    exact .ofNat _

theorem legible_toJson (t : Template) : t.toJson.Legible := by
  refine Json.legible_record fun m hm => ?_
  simp only [List.mem_append, List.mem_cons, List.not_mem_nil, or_false] at hm
  obtain ((rfl | rfl | rfl | rfl | rfl) | hheight) | htimestamp := hm
  · exact .ofNat _
  · exact .ofNat _
  · exact .ofNat _
  · exact Json.legible_array TemplateInput.legible_toJson t.inputs
  · exact Json.legible_array TemplateOutput.legible_toJson t.outputs
  · exact legible_optionalMember m hheight
  · exact legible_optionalMember m htimestamp

/-- Every field is found again, also one that was left out because it had no value. -/
theorem ofJson?_toJson (t : Template) : ofJson? t.toJson = some t := by
  obtain ⟨version, lockTime, currentInput, inputs, outputs, height, timestamp⟩ := t
  have hinputs := Json.list?_array TemplateInput.ofJson?_toJson inputs
  have houtputs := Json.list?_array TemplateOutput.ofJson?_toJson outputs
  rw [ofJson?, toJson, Json.fields?_record]
  · cases height <;> cases timestamp <;>
      simp [fieldNames, optionalMember, List.lookup_cons, Json.fieldOr, Json.word32?_ofNat,
        Json.optional?_ofNat, hinputs, houtputs]
  · cases height <;> cases timestamp <;> simp [optionalMember]

theorem read?_pretty (t : Template) : (Json.read? t.pretty).bind ofJson? = some t := by
  rw [pretty, Json.read?_pretty t.legible_toJson, Option.bind_some, ofJson?_toJson]

/-! ### What validation finds -/

theorem bind_ne_json {α β : Type} {x : Except Flaw α} {f : α → Except Flaw β}
    (hx : x ≠ .error .json) (hf : ∀ a, f a ≠ .error .json) : x >>= f ≠ .error .json := by
  cases x with
  | ok a => exact hf a
  | error flaw =>
    intro h
    cases h
    exact hx rfl

theorem checkHex_ne_json (field value : String) : checkHex field value ≠ .error .json := by
  unfold checkHex
  split <;> simp

theorem checkTxid_ne_json (index : Nat) (txid : String) : checkTxid index txid ≠ .error .json := by
  unfold checkTxid
  split <;> simp

theorem checkInputs_ne_json (index : Nat) (inputs : List TemplateInput) :
    checkInputs index inputs ≠ .error .json := by
  induction inputs generalizing index with
  | nil => simp [checkInputs]
  | cons i rest ih =>
    exact bind_ne_json (checkTxid_ne_json _ _) fun _ =>
      bind_ne_json (checkHex_ne_json _ _) fun _ => ih (index + 1)

theorem checkOutputs_ne_json (index : Nat) (outputs : List TemplateOutput) :
    checkOutputs index outputs ≠ .error .json := by
  induction outputs generalizing index with
  | nil => simp [checkOutputs]
  | cons o rest ih => exact bind_ne_json (checkHex_ne_json _ _) fun _ => ih (index + 1)

/-- Validation does not blame the text. -/
theorem validate_ne_json (t : Template) : t.validate ≠ .error .json := by
  refine bind_ne_json (checkInputs_ne_json _ _) fun _ =>
    bind_ne_json (checkOutputs_ne_json _ _) fun _ => ?_
  split <;> simp

/-- **Reading what was written gives the template, or the flaw that validation finds in it,**
and never finds fault with the text. -/
theorem parse_pretty (t : Template) :
    parse t.pretty = t.validate.map (fun _ => t) ∧ parse t.pretty ≠ .error .json := by
  have hparse : parse t.pretty = t.validate.map (fun _ => t) := by
    rw [parse, read?_pretty]
    dsimp only
    cases t.validate <;> rfl
  refine ⟨hparse, ?_⟩
  rw [hparse]
  have hvalid := t.validate_ne_json
  cases hcheck : t.validate with
  | ok _ => exact nofun
  | error flaw =>
    rw [hcheck] at hvalid
    intro h
    cases h
    exact hvalid rfl

end Template

end ScriptBench
