import Pushdown.Json.Decoder
import Pushdown.Proofs.Json.Nesting

/-!
# Documents without their defaults

Some members of a node need not be written, because a decoder fills in what they would say. A
document is thinned by deleting any of them, anywhere in it (`Thinned`). A thinned record has the
same fields, except that the ones of the deleted members are empty (`memberFields?_of_thinned`).

## Implementation notes

Whether a member can be deleted depends on the tag of its node, which is the key that the record
stands under. A relation between documents therefore carries that key along.
-/

namespace Pushdown.Json

/-- The members that need not be written: the tag of the node, the key and the value. -/
def defaultedMembers : List (String × String × Json) :=
  [("is_null", "operand", .null), ("is_null", "stream_id", .null),
    ("stream_variable", "stream_id", .null), ("function", "namespace", .null),
    ("function", "args", .array []), ("store_variable", "store_id", .null)]

mutual

/-- The second document is the first one without some of its defaulted members. The key is the one
that both stand under. -/
inductive Thinned : String → Json → Json → Prop
  | null {key : String} : Thinned key .null .null
  | bool {key : String} (b : Bool) : Thinned key (.bool b) (.bool b)
  | number {key : String} (numeral : String) : Thinned key (.number numeral) (.number numeral)
  | string {key : String} (content : Option String) :
      Thinned key (.string content) (.string content)
  | array {key : String} {items items' : List Json} (h : ThinnedItems items items') :
      Thinned key (.array items) (.array items')
  | object {key : String} {members members' : List (Option String × Json)}
      (h : ThinnedMembers key members members') : Thinned key (.object members) (.object members')

/-- Every item is thinned. -/
inductive ThinnedItems : List Json → List Json → Prop
  | nil : ThinnedItems [] []
  | cons {item item' : Json} {items items' : List Json} (h : Thinned "" item item')
      (hitems : ThinnedItems items items') : ThinnedItems (item :: items) (item' :: items')

/-- Every member of a record is thinned, or it is defaulted and deleted. -/
inductive ThinnedMembers :
    String → List (Option String × Json) → List (Option String × Json) → Prop
  | nil {tag : String} : ThinnedMembers tag [] []
  | keep {tag key : String} {value value' : Json} {members members' : List (Option String × Json)}
      (h : Thinned key value value') (hmembers : ThinnedMembers tag members members') :
      ThinnedMembers tag ((some key, value) :: members) ((some key, value') :: members')
  | delete {tag key : String} {value : Json} {members members' : List (Option String × Json)}
      (h : (tag, key, value) ∈ defaultedMembers) (hmembers : ThinnedMembers tag members members') :
      ThinnedMembers tag ((some key, value) :: members) members'

end

/-! ## Whole documents -/

/-- A document is thinned by deleting nothing. -/
theorem Exact.thinned {j : Json} (h : j.Exact) (key : String) : Thinned key j j := by
  induction h generalizing key with
  | null => exact .null
  | bool b => exact .bool b
  | int n => exact .number _
  | text s => exact .string _
  | @array items h ih =>
      apply Thinned.array
      clear h
      induction items with
      | nil => exact .nil
      | cons item items ihs =>
          exact .cons (ih item (by simp) "") (ihs fun i hi => ih i (by simp [hi]))
  | @object members hkeys h ih =>
      apply Thinned.object
      clear h
      induction members with
      | nil => exact .nil
      | cons member members ihs =>
          obtain ⟨name, value, rfl⟩ := exists_key (hkeys member (by simp))
          exact .keep (ih (some name, value) (by simp) name)
            (ihs (fun m hm => hkeys m (by simp [hm])) fun m hm => ih m (by simp [hm]))

/-- A thinned list has thinned items only. -/
theorem ThinnedItems.exists_of_mem {items items' : List Json} (h : ThinnedItems items items')
    {item' : Json} (hmem : item' ∈ items') : ∃ item ∈ items, Thinned "" item item' := by
  induction items generalizing items' with
  | nil =>
      cases h
      simp at hmem
  | cons first items ih =>
      cases h with
      | cons hfirst hitems =>
          rcases List.mem_cons.mp hmem with rfl | hmem
          · exact ⟨first, by simp, hfirst⟩
          · obtain ⟨item, hitem, hthinned⟩ := ih hitems hmem
            exact ⟨item, by simp [hitem], hthinned⟩

/-- A member that is left has a key, and its value is thinned. -/
theorem ThinnedMembers.exists_of_mem {tag : String}
    {members members' : List (Option String × Json)} (h : ThinnedMembers tag members members')
    {m' : Option String × Json} (hmem : m' ∈ members') :
    ∃ key, m'.1 = some key ∧ ∃ m ∈ members, Thinned key m.2 m'.2 := by
  induction members generalizing members' with
  | nil =>
      cases h
      simp at hmem
  | cons first members ih =>
      cases h with
      | @keep _ key _ _ _ _ hfirst hmembers =>
          rcases List.mem_cons.mp hmem with rfl | hmem
          · exact ⟨key, rfl, _, List.mem_cons_self, hfirst⟩
          · obtain ⟨other, hother, m, hm, hthinned⟩ := ih hmembers hmem
            exact ⟨other, hother, m, List.mem_cons_of_mem _ hm, hthinned⟩
      | delete _ hmembers =>
          obtain ⟨other, hother, m, hm, hthinned⟩ := ih hmembers hmem
          exact ⟨other, hother, m, List.mem_cons_of_mem _ hm, hthinned⟩

/-- Deleting members brings nothing new into a document. -/
theorem Exact.of_thinned {j j' : Json} (h : j.Exact) {key : String} (ht : Thinned key j j') :
    j'.Exact := by
  induction h generalizing key j' with
  | null =>
      cases ht
      exact .null
  | bool b =>
      cases ht
      exact .bool b
  | int n =>
      cases ht
      exact .int n
  | text s =>
      cases ht
      exact .text s
  | array h ih =>
      cases ht with
      | array ht =>
          apply Exact.array
          intro item' hitem'
          obtain ⟨item, hitem, hthinned⟩ := ht.exists_of_mem hitem'
          exact ih item hitem hthinned
  | object hkeys h ih =>
      cases ht with
      | object ht =>
          apply Exact.object
          · intro m' hm'
            obtain ⟨name, hname, -⟩ := ht.exists_of_mem hm'
            rw [hname, Option.isSome_some]
          · intro m' hm'
            obtain ⟨name, -, m, hm, hthinned⟩ := ht.exists_of_mem hm'
            exact ih m hm hthinned

/-! ## Fields of a record -/

/-- The field of a member: it holds the thinned value, or it is empty because the member was
deleted. -/
inductive Field (tag key : String) (value : Json) : Option Json → Prop
  | kept {value' : Json} (h : Thinned key value value') : Field tag key value (some value')
  | deleted (h : (tag, key, value) ∈ defaultedMembers) : Field tag key value none

/-- A key that stands at one place only is found there. -/
theorem findIdx?_key {before after : List String} {key : String} (h : key ∉ before) :
    (before ++ key :: after).findIdx? (· == key) = some before.length := by
  have hnone : before.findIdx? (· == key) = none := by
    rw [List.findIdx?_eq_none_iff]
    intro name hname
    simpa using fun heq : name = key => h (heq ▸ hname)
  simp [List.findIdx?_append, hnone, List.findIdx?_cons]

/-- The fields of a thinned record, behind fields whose members stand in front of it. -/
theorem memberFields?_of_thinned (closed : Bool) {tag : String} {before : List String}
    {members : List (String × Json)} {members' : List (Option String × Json)}
    (hdistinct : (before ++ members.map Prod.fst).Nodup)
    (h : ThinnedMembers tag (members.map fun (key, value) => (some key, value)) members') :
    ∃ fields, memberFields? closed (before ++ members.map Prod.fst) members' =
        some (before.map (fun _ => none) ++ fields) ∧
      List.Forall₂ (fun m field => Field tag m.1 m.2 field) members fields := by
  induction members generalizing before members' with
  | nil =>
      cases h
      exact ⟨[], by simp [memberFields?], .nil⟩
  | cons member members ih =>
      obtain ⟨key, value⟩ := member
      have hnames : before ++ (key :: members.map Prod.fst) =
          before ++ [key] ++ members.map Prod.fst := by simp
      rw [List.map_cons, hnames] at hdistinct ⊢
      cases h with
      | delete hdefault hmembers =>
          obtain ⟨fields, hfields, hall⟩ := ih hdistinct hmembers
          refine ⟨none :: fields, ?_, .cons (.deleted hdefault) hall⟩
          rw [hfields]
          simp
      | @keep _ _ _ value' _ rest' hvalue hmembers =>
          obtain ⟨fields, hfields, hall⟩ := ih hdistinct hmembers
          refine ⟨some value' :: fields, ?_, .cons (.kept hvalue) hall⟩
          have hkey : key ∉ before := by
            intro hmem
            rw [List.append_assoc, List.nodup_append] at hdistinct
            exact hdistinct.2.2 key hmem key (by simp) rfl
          rw [memberFields?, hfields, ← hnames, findIdx?_key hkey]
          simp

end Pushdown.Json
