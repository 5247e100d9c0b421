import Mathlib.Data.List.Perm.Subperm
import Pushdown.Proofs.Translation.Script

/-!
# Numbering the holes of a draft

Filling a text with holes succeeds when the holes are distinct and are exactly the tokens that
have a value; the text then has the markers in their order (`fill_of_clean`). Only the numbers of
holes and values are compared at the end: distinct tokens that all have a value are all of them
exactly if they are as many (`Clean.length_eq_size_iff`).

A draft starts in that state and every step keeps it (`Draft.Ordered`), because a hole always
takes a token that is new. What a draft will become is therefore known at every step: `text`
is its text with the markers put in, `bound` the list of its bind values, and one step appends
to both (`text_put`, `bound_put`).
-/

namespace Pushdown

/-! ## Values by token -/

namespace Bindings

theorem get?_of_mem (b : Bindings) {token : Token} {value : BoundValue}
    (h : (token, value) ∈ b.entries) : b.get? token = some value := by
  obtain ⟨entries, distinct⟩ := b
  simp only [get?] at h ⊢
  induction entries with
  | nil => simp at h
  | cons entry rest ih =>
      obtain ⟨t, v⟩ := entry
      simp only [List.map_cons, List.nodup_cons] at distinct
      rcases List.mem_cons.mp h with heq | hrest
      · simp_all
      · have hne : token ≠ t := by
          rintro rfl
          exact distinct.1 (List.mem_map_of_mem hrest)
        have hbeq : (token == t) = false := by simpa using hne
        rw [List.lookup_cons, hbeq]
        exact ih distinct.2 hrest

theorem exists_get? (b : Bindings) {token : Token} (h : token ∈ b.tokens) :
    ∃ value, b.get? token = some value := by
  obtain ⟨⟨_, value⟩, hentry, rfl⟩ := List.mem_map.mp h
  exact ⟨value, b.get?_of_mem hentry⟩

/-- Looking the tokens up in the order of their insertion gives the values in that order. -/
theorem filterMap_get?_tokens (b : Bindings) :
    b.tokens.filterMap b.get? = b.entries.map Prod.snd := by
  rw [tokens, List.filterMap_map, ← List.filterMap_eq_map]
  refine List.filterMap_congr fun entry hentry => ?_
  exact b.get?_of_mem hentry

end Bindings

/-! ## Filling holes -/

/-- The text of segments whose holes are numbered from the given ordinal. -/
def numbered (dialect : Dialect) : Nat → List Segment → String
  | _, [] => ""
  | k, .literal text :: rest => text ++ numbered dialect k rest
  | k, .hole _ :: rest => dialect.marker k ++ numbered dialect (k + 1) rest

theorem numbered_append (dialect : Dialect) (k : Nat) (a b : List Segment) :
    numbered dialect k (a ++ b) =
      numbered dialect k a ++ numbered dialect (k + (holes a).length) b := by
  induction a generalizing k with
  | nil => simp [numbered, holes]
  | cons s rest ih =>
      cases s with
      | literal text => simp [numbered, holes, ih, String.append_assoc]
      | hole token =>
          simp [numbered, holes, ih, String.append_assoc, Nat.add_assoc, Nat.add_comm 1]

/-- The tokens are distinct, and each of them has a value. -/
structure Clean (values : Bindings) (tokens : List Token) : Prop where
  /-- Every token has a value. -/
  bound : ∀ t ∈ tokens, t ∈ values.tokens
  /-- No token occurs twice. -/
  distinct : tokens.Nodup

namespace Clean

variable {values : Bindings} {tokens others : List Token}

theorem of_perm (h : Clean values tokens) (hperm : others.Perm tokens) : Clean values others :=
  ⟨fun t ht => h.bound t (hperm.mem_iff.mp ht), hperm.nodup_iff.mpr h.distinct⟩

theorem not_mem_of_cons {token : Token} (h : Clean values (token :: (tokens ++ others))) :
    token ∉ others :=
  fun hmem => (List.nodup_cons.mp h.distinct).1 (List.mem_append_right tokens hmem)

/-- Clean tokens are as many as the values exactly if they are all the tokens that have one. -/
theorem length_eq_size_iff (h : Clean values tokens) :
    tokens.length = values.size ↔ tokens.Perm values.tokens := by
  have hsize : values.size = values.tokens.length := by simp [Bindings.size, Bindings.tokens]
  constructor
  · intro hlength
    exact (List.subperm_of_subset h.distinct h.bound).perm_of_length_le (by omega)
  · intro hperm
    rw [hsize, hperm.length_eq]

end Clean

/-- Which tokens are unused does not depend on the order of the others. -/
theorem unusedTokens_of_perm (values : Bindings) {seen others : List Token}
    (hperm : seen.Perm others) : unusedTokens values seen = unusedTokens values others := by
  have hsame : (fun t => !seen.contains t) = fun t => !others.contains t := by
    funext t
    simp [hperm.mem_iff]
  rw [unusedTokens, unusedTokens, hsame]

/-- A new hole with a value takes the next ordinal. -/
theorem fill_hole (dialect : Dialect) {values : Bindings} {seen : List Token} {token : Token}
    {value : BoundValue} (hget : values.get? token = some value) (hfresh : token ∉ seen)
    (rest : List Segment) :
    fill values dialect seen (.hole token :: rest) =
      (fill values dialect (token :: seen) rest).map fun (sql, parameters) =>
        (dialect.marker seen.length ++ sql, value :: parameters) := by
  simp only [fill, hget, List.contains_iff_mem, hfresh, if_false]

/-- Filling clean holes behind the ones seen so far puts the markers and the values in the order of
the text, unless there are more values than holes. -/
theorem fill_of_clean (dialect : Dialect) {values : Bindings} {seen : List Token}
    {segments : List Segment} (h : Clean values (holes segments ++ seen)) :
    fill values dialect seen segments =
      if (holes segments ++ seen).length = values.size then
        .ok (numbered dialect seen.length segments, (holes segments).filterMap values.get?)
      else .error (.unused (unusedTokens values (holes segments ++ seen))) := by
  induction segments generalizing seen with
  | nil => rfl
  | cons s rest ih =>
      cases s with
      | literal text =>
          have hrest : Clean values (holes rest ++ seen) := h
          rw [fill, ih hrest, holes]
          by_cases hcount : (holes rest ++ seen).length = values.size
          · rw [if_pos hcount, if_pos hcount]
            rfl
          · rw [if_neg hcount, if_neg hcount]
            rfl
      | hole token =>
          have hmiddle : (holes rest ++ token :: seen).Perm (token :: (holes rest ++ seen)) :=
            List.perm_middle
          obtain ⟨value, hget⟩ := values.exists_get? (h.bound token (by simp [holes]))
          have hvalues : (holes (.hole token :: rest)).filterMap values.get? =
              value :: (holes rest).filterMap values.get? := List.filterMap_cons_some hget
          rw [fill_hole dialect hget h.not_mem_of_cons, ih (h.of_perm hmiddle), hmiddle.length_eq,
            unusedTokens_of_perm values hmiddle, hvalues]
          by_cases hcount : (token :: (holes rest ++ seen)).length = values.size
          · rw [if_pos hcount, holes, List.cons_append, if_pos hcount]
            rfl
          · rw [if_neg hcount, holes, List.cons_append, if_neg hcount]
            rfl

/-! ## Steps of a draft -/

theorem numbered_segments_write (dialect : Dialect) (b : Buffer) (text : String) :
    numbered dialect 0 (b.write text).segments = numbered dialect 0 b.segments ++ text := by
  obtain ⟨stored⟩ := b
  cases stored with
  | nil => simp [Buffer.write, Buffer.segments, numbered]
  | cons s older =>
      cases s with
      | literal last =>
          simp [Buffer.write, Buffer.segments, numbered_append, numbered, String.append_assoc]
      | hole token =>
          simp [Buffer.write, Buffer.segments, numbered_append, numbered, String.append_assoc]

/-- The number of tokens of a kind taken so far. -/
def TokenCounter.count (c : TokenCounter) : TokenKind → Nat
  | .constant => c.constants
  | .sourced => c.sourced

theorem TokenCounter.next_eq (c : TokenCounter) (kind : TokenKind) :
    c.next kind = ⟨kind, c.count kind⟩ := by
  cases kind <;> rfl

theorem TokenCounter.count_advance (c : TokenCounter) (kind other : TokenKind) :
    (c.advance kind).count other = if other = kind then c.count other + 1 else c.count other := by
  cases kind <;> cases other <;> rfl

namespace Draft

/-- The holes of the draft are the tokens with a value, in the same order, and every one of them
was taken from the counter. -/
structure Ordered (d : Draft) : Prop where
  /-- The holes are the tokens that have a value. -/
  holes_eq : holes d.buffer.segments = d.values.tokens
  /-- The index of a token is below the count of its kind. -/
  taken : ∀ t ∈ d.values.tokens, t.index < d.counter.count t.kind

/-- The text of the draft with its holes numbered. -/
def text (d : Draft) (dialect : Dialect) : String := numbered dialect 0 d.buffer.segments

/-- The bind values of the draft, in the order in which they were bound. -/
def bound (d : Draft) : List BoundValue := d.values.entries.map Prod.snd

theorem length_holes {d : Draft} (h : d.Ordered) :
    (holes d.buffer.segments).length = d.bound.length := by
  simp [h.holes_eq, Bindings.tokens, bound]

/-- The token that the next bind value takes has no value yet. -/
theorem next_not_mem {d : Draft} (h : d.Ordered) (kind : TokenKind) :
    d.counter.next kind ∉ d.values.tokens := by
  intro hmem
  have hlt := h.taken _ hmem
  rw [TokenCounter.next_eq] at hlt
  exact Nat.lt_irrefl _ hlt

theorem entries_insert_of_not_mem (b : Bindings) {token : Token} (value : BoundValue)
    (h : token ∉ b.tokens) : (b.insert token value).entries = b.entries ++ [(token, value)] := by
  obtain ⟨entries, distinct⟩ := b
  simp only [Bindings.tokens, Bindings.insert] at h ⊢
  clear distinct
  induction entries with
  | nil => rfl
  | cons entry rest ih =>
      obtain ⟨t, v⟩ := entry
      simp only [List.map_cons, List.mem_cons, not_or] at h
      have hne : ¬t = token := fun heq => h.1 heq.symm
      simp [insertEntry, hne, ih h.2]

/-- No step breaks the order of holes and tokens. -/
theorem Ordered.put {d : Draft} (h : d.Ordered) (p : Piece) : (d.put p).Ordered := by
  cases p with
  | text text =>
      exact ⟨by simpa [Draft.put, Draft.write] using h.holes_eq, h.taken⟩
  | value value =>
      have hnew := next_not_mem h (tokenKind value)
      constructor
      · simp [Draft.put, Draft.bind, h.holes_eq, hnew, holes]
      · intro t ht
        simp only [Draft.put, Draft.bind, Bindings.tokens_insert, hnew, if_false,
          List.mem_append, List.mem_singleton] at ht
        simp only [Draft.put, Draft.bind, TokenCounter.count_advance]
        rcases ht with ht | rfl
        · have := h.taken t ht
          split <;> omega
        · simp [TokenCounter.next_eq]

/-- A step appends its text, or the marker of the next ordinal and a space. -/
theorem text_put {d : Draft} (h : d.Ordered) (dialect : Dialect) (p : Piece) :
    (d.put p).text dialect =
      d.text dialect ++
        match p with
        | .text text => text
        | .value _ => dialect.marker d.bound.length ++ " " := by
  cases p with
  | text text => exact numbered_segments_write dialect d.buffer text
  | value value =>
      simp [Draft.put, Draft.bind, Draft.text, numbered_segments_write, numbered_append,
        numbered, length_holes h, String.append_assoc]

/-- A step binds the value that it opens a hole for. -/
theorem bound_put {d : Draft} (h : d.Ordered) (p : Piece) :
    (d.put p).bound = d.bound ++ Piece.values [p] := by
  cases p with
  | text text => simp [Draft.put, Draft.write, bound, Piece.values]
  | value value =>
      have hnew := next_not_mem h (tokenKind value)
      simp [Draft.put, Draft.bind, bound, entries_insert_of_not_mem _ _ hnew, Piece.values]

end Draft

/-- The text of a list of steps, with the holes numbered from the given ordinal. -/
def Piece.rendered (dialect : Dialect) : Nat → List Piece → String
  | _, [] => ""
  | k, .text written :: ps => written ++ rendered dialect k ps
  | k, .value _ :: ps => dialect.marker k ++ " " ++ rendered dialect (k + 1) ps

theorem Piece.rendered_append (dialect : Dialect) (k : Nat) (ps qs : List Piece) :
    rendered dialect k (ps ++ qs) =
      rendered dialect k ps ++ rendered dialect (k + (values ps).length) qs := by
  induction ps generalizing k with
  | nil => simp [rendered, values]
  | cons p ps ih =>
      cases p with
      | text text => simp [rendered, values, ih, String.append_assoc]
      | value v => simp [rendered, values, ih, String.append_assoc, Nat.add_assoc, Nat.add_comm 1]

namespace Draft

/-- What a list of steps does to a draft in order: the order is kept, and the text and the bind
values of the steps are appended. -/
theorem putAll_spec {d : Draft} (h : d.Ordered) (dialect : Dialect) (ps : List Piece) :
    (d.putAll ps).Ordered ∧
      (d.putAll ps).text dialect =
        d.text dialect ++ Piece.rendered dialect d.bound.length ps ∧
      (d.putAll ps).bound = d.bound ++ Piece.values ps := by
  induction ps generalizing d with
  | nil => simp [h, Piece.rendered, Piece.values]
  | cons p ps ih =>
      obtain ⟨hordered, htext, hbound⟩ := ih (h.put p)
      refine ⟨hordered, ?_, ?_⟩
      · rw [putAll_cons, htext, text_put h, bound_put h]
        cases p <;> simp [Piece.rendered, Piece.values, String.append_assoc]
      · rw [putAll_cons, hbound, bound_put h, List.append_assoc, ← Piece.values_append]
        rfl

/-- The draft that a translator starts with is in order. -/
theorem ordered_empty (log : List Event) : ({ log := log } : Draft).Ordered :=
  ⟨rfl, by simp [Bindings.tokens, Bindings.empty]⟩

end Draft

/-- Numbering the holes of a draft in order never fails. -/
theorem reconcile_of_ordered {d : Draft} (h : d.Ordered) (dialect : Dialect) :
    reconcile d.buffer.segments d.values dialect =
      .ok ⟨Text.trimmed (d.text dialect), d.bound⟩ := by
  have hclean : Clean d.values (holes d.buffer.segments ++ []) := by
    rw [List.append_nil, h.holes_eq]
    exact ⟨fun t ht => ht, d.values.distinct⟩
  have hcount := hclean.length_eq_size_iff.mpr (by rw [List.append_nil, h.holes_eq])
  rw [reconcile, fill_of_clean dialect hclean, if_pos hcount, h.holes_eq,
    Bindings.filterMap_get?_tokens]
  rfl

end Pushdown
