import Pushdown.Json.Expr
import Pushdown.Proofs.Json.Thinning

/-!
# Trees are decoded from their documents

The document of a tree is decoded to the tree, also if any of its defaulted members are deleted, as
long as the text nests within the limit of a decoder (`ofJsonText_toJsonText`).

The induction is on the tree, for every depth that its document nests within. A node opens two
brackets, and what is inside them nests two levels less (`decodesBack_of_fields`), so each kind of
node has to say only what its own fields are decoded to.

## Implementation notes

Floating-point constants are left out. An infinity is written as null, which no tree is read from.
-/

namespace Pushdown

open Number Json

/-! ## Leaves -/

theorem AttrType.ofName?_name (t : AttrType) : ofName? t.name = some t := by cases t <;> decide

theorem CompareOp.ofName?_name (op : CompareOp) : ofName? op.name = some op := by
  cases op <;> decide

theorem MathOp.ofName?_name (op : MathOp) : ofName? op.name = some op := by cases op <;> decide

/-- The value is no floating-point number. -/
def Value.isExact : Value → Bool
  | float _ => false
  | double _ => false
  | _ => true

namespace Json

open Condition (minus toList_toString ofSigned_toDigits)

/-- A numeral with a sign and digits denotes an integer, unless it is a negative zero. -/
theorem wholeNumber?_signed {negative : Bool} {digits : List Char} (hne : digits ≠ [])
    (hdigits : ∀ c ∈ digits, c.isDigit = true) (hzero : minus negative ++ digits ≠ ['-', '0']) :
    wholeNumber? (minus negative ++ digits) = some (ofSigned negative digits) := by
  have hall : digits.all Char.isDigit = true := List.all_eq_true.mpr hdigits
  have hwhole : isWhole (minus negative ++ digits) = true := by
    rw [isWhole, List.all_eq_true]
    intro c hc
    rcases List.mem_append.mp hc with hc | hc
    · cases negative <;> simp_all [minus]
    · simp [hdigits c hc]
  have hsign : spanSign (minus negative ++ digits) = (negative, digits) := by
    cases negative with
    | true => rfl
    | false =>
        obtain ⟨d, ds, rfl⟩ := List.exists_cons_of_ne_nil hne
        have hd : ∀ c ∈ ['-', '+'], d ≠ c := Text.ne_of_class (hdigits d (by simp)) (by decide)
        simp only [List.forall_mem_cons] at hd
        simp [minus, spanSign, hd]
  simp [wholeNumber?, hwhole, hzero, readInt?, hsign, hne, hall]

/-- An integer is the number that its numeral is. -/
theorem asInt_int (n : Int) : asInt (.int n) = some n := by
  have hzero : minus (decide (n < 0)) ++ Nat.toDigits 10 n.natAbs ≠ ['-', '0'] := by
    intro heq
    by_cases hsign : n < 0
    · have hhead := head?_toDigits (n := n.natAbs) (by omega)
      simp [minus, hsign] at heq
      simp [heq] at hhead
    · have hmem : '-' ∈ Nat.toDigits 10 n.natAbs := by
        simp [minus, hsign] at heq
        simp [heq]
      exact absurd (Nat.isDigit_of_mem_toDigits (by decide) (by decide) hmem) (by decide)
  rw [int, asInt, toList_toString, wholeNumber?_signed Nat.toDigits_ne_nil (fun c hc =>
    Nat.isDigit_of_mem_toDigits (by decide) (by decide) hc) hzero, ofSigned_toDigits]

theorem asInt32_int (n : Int32) : asInt32 (.int n.toInt) = some n := by
  have hfits : -0x80000000 ≤ n.toInt ∧ n.toInt < 0x80000000 := ⟨n.le_toInt, n.toInt_lt⟩
  rw [asInt32, asInt_int, Option.bind_some, toInt32?, if_pos hfits, Int32.ofInt_toInt]

theorem asInt64_int (n : Int64) : asInt64 (.int n.toInt) = some n := by
  have hfits : -0x8000000000000000 ≤ n.toInt ∧ n.toInt < 0x8000000000000000 :=
    ⟨n.le_toInt, n.toInt_lt⟩
  rw [asInt64, asInt_int, Option.bind_some, toInt64?, if_pos hfits, Int64.ofInt_toInt]

theorem asUInt64_int (n : UInt64) : asUInt64 (.int n.toNat) = some n := by
  have hfits : n.toNat < 0x10000000000000000 := n.toNat_lt
  rw [asUInt64, asInt_int, Option.bind_some, if_pos (Int.natCast_nonneg _), Int.toNat_natCast,
    toUInt64?, if_pos hfits, UInt64.ofNat_toNat]

/-- Nothing can be deleted from a document without brackets. -/
theorem Thinned.eq_of_nesting {key : String} {j j' : Json} (h : Thinned key j j')
    (hnesting : j.nesting = 0) : j' = j := by
  cases h with
  | null | bool | number | string => rfl
  | array h => simp [nesting] at hnesting
  | object h => simp [nesting] at hnesting

theorem Exact.record {members : List (String × Json)} (h : ∀ m ∈ members, m.2.Exact) :
    (record members).Exact := by
  apply Exact.object
  · intro m hm
    obtain ⟨member, -, rfl⟩ := List.mem_map.mp hm
    rfl
  · intro m hm
    obtain ⟨member, hmember, rfl⟩ := List.mem_map.mp hm
    exact h member hmember

/-- The document of a node is exact if its fields are. -/
theorem Exact.node {tag : String} {members : List (String × Json)} (h : ∀ m ∈ members, m.2.Exact) :
    (tagged tag (Json.record members)).Exact := by
  apply Exact.record
  simpa using Exact.record h

theorem Exact.optionalText (s : Option String) : (optionalText s).Exact := by
  cases s with
  | none => exact .null
  | some s => exact .text s

end Json

namespace Value

/-- A value is a name or a tag with a content that has no brackets. -/
theorem toJson_cases {v : Value} (hexact : v.isExact = true) :
    v = null ∨ ∃ tag content, v.toJson = .tagged tag content ∧ content.nesting = 0 ∧
      content.Exact ∧ ofTagged tag content = some v := by
  cases v with
  | null => exact .inl rfl
  | bool b => exact .inr ⟨"Bool", .bool b, rfl, rfl, .bool b, rfl⟩
  | int n => exact .inr ⟨"Int", .int n.toInt, rfl, rfl, .int _, by simp [ofTagged, asInt32_int]⟩
  | long n => exact .inr ⟨"Long", .int n.toInt, rfl, rfl, .int _, by simp [ofTagged, asInt64_int]⟩
  | float x => exact absurd hexact (by simp [isExact])
  | double x => exact absurd hexact (by simp [isExact])
  | string s => exact .inr ⟨"String", .text s, rfl, rfl, .text s, by simp [ofTagged, asText, text]⟩

theorem toJson_exact {v : Value} (hexact : v.isExact = true) : v.toJson.Exact := by
  rcases toJson_cases hexact with rfl | ⟨tag, content, hjson, -, hcontent, -⟩
  · exact .text "Null"
  · rw [hjson]
    exact .record (by simpa using hcontent)

/-- A value is decoded from its document, from which nothing can be deleted. -/
theorem decode_of_thinned {v : Value} (hexact : v.isExact = true) {j : Json}
    (h : Thinned "value" v.toJson j) {depth : Nat} (hdepth : v.toJson.nesting ≤ depth) :
    decode depth j = some v := by
  rcases toJson_cases hexact with rfl | ⟨tag, content, hjson, hnesting, -, hcontent⟩
  · obtain rfl := h.eq_of_nesting rfl
    simp [toJson, Json.text, decode]
  · rw [hjson] at h hdepth
    simp only [tagged, record, List.map_cons, List.map_nil] at h hdepth
    obtain ⟨depth, rfl⟩ : ∃ n, depth = n + 1 :=
      ⟨depth - 1, by simp [nesting] at hdepth; omega⟩
    cases h with
    | object h =>
        cases h with
        | keep h hnone =>
            obtain rfl := h.eq_of_nesting hnesting
            cases hnone
            simp [decode, hcontent]
        | delete h _ => simp [defaultedMembers] at h

end Value

/-! ## Fields -/

namespace Json.Field

variable {tag key : String} {value : Json} {field : Option Json}

/-- A member that cannot be deleted has its field. -/
theorem required {α : Type} {decode : Json → Option α} {a : α} (h : Field tag key value field)
    (hkept : (tag, key, value) ∉ defaultedMembers)
    (hdecode : ∀ value', Thinned key value value' → decode value' = some a) :
    Json.required decode field = some a := by
  cases h with
  | kept h => exact hdecode _ h
  | deleted h => exact absurd h hkept

theorem required_text {s : String} (h : Field tag key (.text s) field) :
    Json.required asText field = some s := by
  apply h.required (by simp [defaultedMembers, text])
  intro value' hvalue'
  rw [hvalue'.eq_of_nesting rfl]
  rfl

/-- A type or an operator is decoded from its name. -/
theorem required_name {α : Type} {ofTag? : String → Option α} {s : String} {a : α}
    (h : Field tag key (.text s) field) (hname : ofTag? s = some a) (depth : Nat) :
    Json.required (unitVariant ofTag? depth) field = some a := by
  apply h.required (by simp [defaultedMembers, text])
  intro value' hvalue'
  rw [hvalue'.eq_of_nesting rfl, text, unitVariant, hname]

theorem required_index {n : UInt64} (h : Field tag key (.int n.toNat) field) :
    Json.required asUInt64 field = some n := by
  apply h.required (by simp [defaultedMembers, int])
  intro value' hvalue'
  rw [hvalue'.eq_of_nesting rfl, asUInt64_int]

theorem required_value {v : Value} (h : Field tag "value" v.toJson field)
    (hexact : v.isExact = true) {depth : Nat} (hdepth : v.toJson.nesting ≤ depth) :
    Json.required (Value.decode depth) field = some v := by
  apply h.required (by simp [defaultedMembers])
  intro value' hvalue'
  exact Value.decode_of_thinned hexact hvalue' hdepth

/-- A missing text is null, or it is not written at all. -/
theorem optional_text {s : Option String} (h : Field tag key (.optionalText s) field) :
    Json.optional asText field = some s := by
  cases h with
  | kept h =>
      cases s with
      | none =>
          rw [h.eq_of_nesting rfl]
          rfl
      | some s =>
          rw [h.eq_of_nesting rfl]
          rfl
  | deleted h =>
      cases s with
      | none => rfl
      | some s => simp [defaultedMembers, optionalText, text] at h

end Json.Field

/-! ## Trees -/

namespace Expr

/-- No constant of the tree is a floating-point number. -/
def IsExact (e : Expr) : Prop :=
  ∀ value type, BoundValue.constant value type ∈ e.leaves → value.isExact = true

theorem exists_object (e : Expr) : ∃ members, e.toJson = .object members := by
  cases e <;> exact ⟨_, rfl⟩

/-- The decoder of an argument list, for the depth inside a node. -/
def argumentsAt : Nat → Json → Option (List Expr)
  | 0 => fun _ => none
  | depth + 1 => itemsOf (decode depth)

theorem decode_object (depth : Nat) (tag : String) (content : Json) :
    decode (depth + 2) (.object [(some tag, content)]) =
      (fields? false (fieldNames tag) content).bind
        (ofFields (decode depth) (argumentsAt depth) depth tag) := by
  cases depth <;> rfl

theorem nodup_fieldNames (tag : String) : (fieldNames tag).Nodup := by
  unfold fieldNames
  split <;> decide

/-- The tree is decoded from its document, thinned or not, if the depth suffices for it. -/
def DecodesBack (e : Expr) : Prop :=
  ∀ ⦃key j depth⦄, Thinned key e.toJson j → e.toJson.nesting ≤ depth → decode depth j = some e

/-- A tree is decoded if its fields are, with what is left of the depth inside of its two
brackets. -/
theorem decodesBack_of_fields {e : Expr} {tag : String} {members : List (String × Json)}
    (hjson : e.toJson = .tagged tag (.record members))
    (hnames : members.map Prod.fst = fieldNames tag)
    (hfields : ∀ depth fields, (∀ m ∈ members, m.2.nesting ≤ depth) →
      List.Forall₂ (fun m field => Field tag m.1 m.2 field) members fields →
      ofFields (decode depth) (argumentsAt depth) depth tag fields = some e) :
    e.DecodesBack := by
  intro key j depth h hdepth
  simp only [hjson, tagged, record, List.map_cons, List.map_nil] at h hdepth
  simp only [Json.nesting, nestingMembers, Nat.max_zero] at hdepth
  obtain ⟨inner, rfl⟩ : ∃ n, depth = n + 2 := ⟨depth - 2, by omega⟩
  have hinner : ∀ m ∈ members, m.2.nesting ≤ inner := by
    intro m hm
    have hle := nesting_le_nestingMembers
      (List.mem_map_of_mem (f := fun m : String × Json => (some m.1, m.2)) hm)
    simp only at hle
    omega
  cases h with
  | object h =>
      cases h with
      | delete h _ => simp [defaultedMembers] at h
      | keep h hnone =>
          cases hnone
          cases h with
          | object h =>
              have hdistinct : ([] ++ members.map Prod.fst).Nodup := by
                rw [List.nil_append, hnames]
                exact nodup_fieldNames tag
              obtain ⟨fields, hread, hall⟩ := memberFields?_of_thinned false hdistinct h
              rw [List.nil_append, hnames, List.map_nil, List.nil_append] at hread
              rw [decode_object, fields?, hread]
              exact hfields inner fields hinner hall

section Operands

variable {tag key : String} {e : Expr} {field : Option Json} {depth : Nat}

/-- An operand is decoded from its field, which cannot be deleted. -/
theorem DecodesBack.required (he : e.DecodesBack) (h : Field tag key e.toJson field)
    (hdepth : e.toJson.nesting ≤ depth) : Json.required (decode depth) field = some e := by
  apply h.required
  · obtain ⟨members, hobject⟩ := e.exists_object
    simp [hobject, defaultedMembers]
  · intro j hj
    exact he hj hdepth

/-- The operand of a null check is decoded from its field. -/
theorem DecodesBack.optional (he : e.DecodesBack) (h : Field tag key e.toJson field)
    (hdepth : e.toJson.nesting ≤ depth) : Json.optional (decode depth) field = some (some e) := by
  obtain ⟨members, hobject⟩ := e.exists_object
  cases h with
  | deleted h => simp [hobject, defaultedMembers] at h
  | kept h =>
      have hsome := he h hdepth
      rw [hobject] at h
      cases h
      simp [Json.optional, hsome]

/-- The field of a null check without an operand is null or deleted. -/
theorem optional_none (h : Field tag key .null field) (depth : Nat) :
    Json.optional (decode depth) field = some none := by
  cases h with
  | deleted h => rfl
  | kept h =>
      cases h
      rfl

end Operands

theorem toJsonAll_eq_map (es : List Expr) : toJsonAll es = es.map toJson := by
  induction es with
  | nil => rfl
  | cons e es ih => simp [toJsonAll, ih]

theorem mapM_of_thinned {args : List Expr} {items : List Json} {depth : Nat}
    (h : ThinnedItems (args.map toJson) items) (hargs : ∀ e ∈ args, e.DecodesBack)
    (hdepth : ∀ e ∈ args, e.toJson.nesting ≤ depth) : items.mapM (decode depth) = some args := by
  induction args generalizing items with
  | nil =>
      cases h
      rfl
  | cons e es ih =>
      cases h with
      | cons hitem hitems =>
          have he := hargs e (by simp) hitem (hdepth e (by simp))
          have hes := ih hitems (fun a ha => hargs a (by simp [ha]))
            fun a ha => hdepth a (by simp [ha])
          simp [List.mapM_cons, he, hes]

/-- Arguments are decoded from their field. It can be deleted if there are none. -/
theorem defaulted_arguments {tag key : String} {args : List Expr} {field : Option Json}
    (h : Field tag key (.array (toJsonAll args)) field) (hargs : ∀ e ∈ args, e.DecodesBack)
    {depth : Nat} (hdepth : (Json.array (toJsonAll args)).nesting ≤ depth) :
    defaulted [] (argumentsAt depth) field = some args := by
  rw [toJsonAll_eq_map] at h hdepth
  cases h with
  | deleted h =>
      cases args with
      | nil => rfl
      | cons e es => simp [defaultedMembers] at h
  | kept h =>
      cases h with
      | array h =>
          rw [Json.nesting] at hdepth
          obtain ⟨inner, rfl⟩ : ∃ n, depth = n + 1 := ⟨depth - 1, by omega⟩
          apply mapM_of_thinned h hargs
          intro e he
          exact Nat.le_trans (nesting_le_nestingItems (List.mem_map_of_mem he)) (by omega)

/-! ### Exact trees -/

/-- The operands of an exact node are exact. -/
theorem isExact_of_append {l r : Expr} (h : ∀ value type,
    BoundValue.constant value type ∈ l.leaves ++ r.leaves → value.isExact = true) :
    l.IsExact ∧ r.IsExact := by
  constructor
  · intro value type hleaf
    exact h value type (List.mem_append_left _ hleaf)
  · intro value type hleaf
    exact h value type (List.mem_append_right _ hleaf)

theorem IsExact.of_mem_args {space : Option String} {name : String} {args : List Expr}
    (h : (call space name args).IsExact) {a : Expr} (ha : a ∈ args) : a.IsExact := by
  intro value type hleaf
  apply h value type
  rw [leaves, leavesAll_eq_flatMap]
  exact List.mem_flatMap.mpr ⟨a, ha, hleaf⟩

/-- An exact tree is decoded from its document, thinned or not. -/
theorem IsExact.decodesBack {e : Expr} (hexact : e.IsExact) : e.DecodesBack := by
  induction e using Expr.induct with
  | and l r ihl ihr | or l r ihl ihr =>
      obtain ⟨hl, hr⟩ := isExact_of_append hexact
      apply decodesBack_of_fields rfl rfl
      intro depth fields hdepth hfields
      simp only [List.forall_mem_cons] at hdepth
      rcases hfields with _ | ⟨hleft, _ | ⟨hright, ⟨⟩⟩⟩
      simp [ofFields, (ihl hl).required hleft hdepth.1, (ihr hr).required hright hdepth.2.1]
  | not e ih =>
      apply decodesBack_of_fields rfl rfl
      intro depth fields hdepth hfields
      simp only [List.forall_mem_cons] at hdepth
      rcases hfields with _ | ⟨hoperand, ⟨⟩⟩
      simp [ofFields, (ih hexact).required hoperand hdepth.1]
  | compare l op r ihl ihr | math l op r ihl ihr =>
      obtain ⟨hl, hr⟩ := isExact_of_append hexact
      apply decodesBack_of_fields rfl rfl
      intro depth fields hdepth hfields
      simp only [List.forall_mem_cons] at hdepth
      rcases hfields with _ | ⟨hleft, _ | ⟨hop, _ | ⟨hright, ⟨⟩⟩⟩⟩
      simp [ofFields, (ihl hl).required hleft hdepth.1, (ihr hr).required hright hdepth.2.2.1,
        CompareOp.decode, MathOp.decode, hop.required_name op.ofName?_name]
  | isNull e stream ih =>
      apply decodesBack_of_fields rfl rfl
      intro depth fields hdepth hfields
      simp only [List.forall_mem_cons] at hdepth
      rcases hfields with _ | ⟨hoperand, _ | ⟨hstream, ⟨⟩⟩⟩
      simp [ofFields, (ih hexact).optional hoperand hdepth.1, hstream.optional_text]
  | eventNull stream =>
      apply decodesBack_of_fields rfl rfl
      intro depth fields _ hfields
      rcases hfields with _ | ⟨hoperand, _ | ⟨hstream, ⟨⟩⟩⟩
      simp [ofFields, optional_none hoperand, hstream.optional_text]
  | member e store ih =>
      apply decodesBack_of_fields rfl rfl
      intro depth fields hdepth hfields
      simp only [List.forall_mem_cons] at hdepth
      rcases hfields with _ | ⟨hoperand, _ | ⟨hstore, ⟨⟩⟩⟩
      simp [ofFields, (ih hexact).required hoperand hdepth.1, hstore.required_text]
  | constant value type =>
      have hvalue : value.isExact = true := hexact value type (by simp [leaves])
      apply decodesBack_of_fields rfl rfl
      intro depth fields hdepth hfields
      simp only [List.forall_mem_cons] at hdepth
      rcases hfields with _ | ⟨hcontent, _ | ⟨htype, ⟨⟩⟩⟩
      simp [ofFields, hcontent.required_value hvalue hdepth.1, AttrType.decode,
        htype.required_name type.ofName?_name]
  | call space name args ih =>
      have hargs : ∀ a ∈ args, a.DecodesBack := fun a ha => ih a ha (hexact.of_mem_args ha)
      apply decodesBack_of_fields rfl rfl
      intro depth fields hdepth hfields
      simp only [List.forall_mem_cons] at hdepth
      rcases hfields with _ | ⟨hspace, _ | ⟨hname, _ | ⟨hlist, ⟨⟩⟩⟩⟩
      simp [ofFields, hspace.optional_text, hname.required_text,
        defaulted_arguments hlist hargs hdepth.2.2.1]
  | parameter index type =>
      apply decodesBack_of_fields rfl rfl
      intro depth fields _ hfields
      rcases hfields with _ | ⟨hindex, _ | ⟨htype, ⟨⟩⟩⟩
      simp [ofFields, hindex.required_index, AttrType.decode,
        htype.required_name type.ofName?_name]
  | eventField id stream name type =>
      apply decodesBack_of_fields rfl rfl
      intro depth fields _ hfields
      rcases hfields with _ | ⟨hid, _ | ⟨hstream, _ | ⟨hname, _ | ⟨htype, ⟨⟩⟩⟩⟩⟩
      simp [ofFields, hid.required_text, hstream.optional_text, hname.required_text,
        AttrType.decode, htype.required_name type.ofName?_name]
  | column store name type =>
      apply decodesBack_of_fields rfl rfl
      intro depth fields _ hfields
      rcases hfields with _ | ⟨hstore, _ | ⟨hname, _ | ⟨htype, ⟨⟩⟩⟩⟩
      simp [ofFields, hstore.optional_text, hname.required_text, AttrType.decode,
        htype.required_name type.ofName?_name]

/-- The document of an exact tree is exact. -/
theorem IsExact.toJson {e : Expr} (hexact : e.IsExact) : e.toJson.Exact := by
  induction e using Expr.induct with
  | and l r ihl ihr | or l r ihl ihr =>
      obtain ⟨hl, hr⟩ := isExact_of_append hexact
      exact .node (by simp [ihl hl, ihr hr])
  | compare l op r ihl ihr | math l op r ihl ihr =>
      obtain ⟨hl, hr⟩ := isExact_of_append hexact
      exact .node (by simp [ihl hl, ihr hr, CompareOp.toJson, MathOp.toJson, Exact.text])
  | not e ih => exact .node (by simp [ih hexact])
  | isNull e stream ih => exact .node (by simp [ih hexact, Exact.optionalText])
  | eventNull stream => exact .node (by simp [Exact.null, Exact.optionalText])
  | member e store ih => exact .node (by simp [ih hexact, Exact.text])
  | constant value type =>
      have hvalue : value.toJson.Exact := Value.toJson_exact (hexact value type (by simp [leaves]))
      exact .node (by simp [hvalue, AttrType.toJson, Exact.text])
  | call space name args ih =>
      have hargs : (Json.array (toJsonAll args)).Exact := by
        rw [toJsonAll_eq_map]
        apply Exact.array
        intro item hitem
        obtain ⟨a, ha, rfl⟩ := List.mem_map.mp hitem
        exact ih a ha (hexact.of_mem_args ha)
      exact .node (by simp [hargs, Exact.text, Exact.optionalText])
  | parameter index type => exact .node (by simp [AttrType.toJson, Exact.text, Exact.int])
  | eventField | column =>
      exact .node (by simp [AttrType.toJson, Exact.text, Exact.optionalText])

/-- A tree without floating-point constants, with any texts in its fields, is decoded from its
compact text if that nests fewer than 128 brackets deep. It is also decoded from the text that is
left if any of the defaulted members are deleted. -/
theorem ofJsonText_toJsonText (e : Expr) (hexact : e.IsExact)
    (hdepth : bracketDepth e.toJsonText < 128) :
    ofJsonText? e.toJsonText = some e ∧
      ∀ j, Thinned "" e.toJson j → ofJsonText? j.compact = some e := by
  rw [toJsonText, bracketDepth_compact hexact.toJson] at hdepth
  have hthinned : ∀ j, Thinned "" e.toJson j → ofJsonText? j.compact = some e := by
    intro j hj
    rw [ofJsonText?, read_compact (hexact.toJson.of_thinned hj), Option.bind_some, decodeWith]
    exact hexact.decodesBack hj (Nat.le_of_lt_succ hdepth)
  exact ⟨hthinned _ (hexact.toJson.thinned ""), hthinned⟩

/-- A tree with four defaulted members, the least integer and a name that has to be escaped. -/
def sparse : Expr :=
  .and (.eventNull none) (.compare (.call none "f\"\n😀[" []) .gte
    (.constant (.long (-9223372036854775808)) .long))

/-- The document of the tree without the four members. -/
def sparseThinned : Json :=
  .tagged "and" (.record [("left", .tagged "is_null" (.record [])),
    ("right", .tagged "compare" (.record [
      ("left", .tagged "function" (.record [("name", .text "f\"\n😀[")])),
      ("op", .text "Gte"),
      ("right", .tagged "constant" (.record [
        ("value", .tagged "Long" (.int (-9223372036854775808))), ("ty", .text "long")]))]))])

/-- The tree is decoded from its text and from the text without the four members. -/
theorem ofJsonText_sparse :
    ofJsonText? sparse.toJsonText = some sparse ∧
      ofJsonText? sparseThinned.compact = some sparse := by
  have hexact : sparse.IsExact := by
    intro value type hleaf
    obtain ⟨rfl, -⟩ : value = .long (-9223372036854775808) ∧ type = .long := by
      simpa [sparse, leaves, leavesAll] using hleaf
    rfl
  have hnull : Thinned "left" (eventNull none).toJson (.tagged "is_null" (.record [])) :=
    .object (.keep (.object (.delete (by simp [defaultedMembers])
      (.delete (by simp [defaultedMembers, optionalText]) .nil))) .nil)
  have hcall : Thinned "left" (call none "f\"\n😀[" []).toJson
      (.tagged "function" (.record [("name", .text "f\"\n😀[")])) :=
    .object (.keep (.object (.delete (by simp [defaultedMembers, optionalText])
      (.keep (.string _) (.delete (by simp [defaultedMembers, toJsonAll]) .nil)))) .nil)
  have hconstant : Thinned "right" (constant (.long (-9223372036854775808)) .long).toJson
      (.tagged "constant" (.record [
        ("value", .tagged "Long" (.int (-9223372036854775808))), ("ty", .text "long")])) :=
    .object (.keep (.object (.keep (.object (.keep (.number _) .nil))
      (.keep (.string _) .nil))) .nil)
  have hdepth : bracketDepth sparse.toJsonText < 128 := by
    rw [toJsonText, bracketDepth_compact hexact.toJson]
    decide
  obtain ⟨hwhole, hthinned⟩ := ofJsonText_toJsonText sparse hexact hdepth
  refine ⟨hwhole, hthinned sparseThinned (.object (.keep (.object (.keep hnull (.keep ?_ .nil)))
    .nil))⟩
  exact .object (.keep (.object (.keep hcall (.keep (.string _) (.keep hconstant .nil)))) .nil)

end Expr

end Pushdown
