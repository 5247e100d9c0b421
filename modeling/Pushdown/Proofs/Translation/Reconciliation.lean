import Pushdown.Proofs.Translation.Runs

/-!
# Holes and values that do not match

The holes of a text and the tokens with a value are compared in the order of the text. Clean holes
are answered by their number alone: they are all the tokens with a value, or some value is left over
(`reconcile_of_clean`). Holes that are not clean have a first stray one, at which the comparison
ends (`reconcile_of_firstStray`).

Neither answer depends on the order in which the values are stored (`reconcile_of_perm`). The
left-over tokens are sorted by name, and names tell tokens apart.
-/

namespace Pushdown

/-! ## Values in any order -/

namespace Bindings

theorem get?_eq_some_iff (b : Bindings) {token : Token} {value : BoundValue} :
    b.get? token = some value ↔ (token, value) ∈ b.entries := by
  constructor
  · intro h
    obtain ⟨before, after, hentries, -⟩ := List.lookup_eq_some_iff.mp h
    rw [hentries]
    exact List.mem_append_right before List.mem_cons_self
  · exact b.get?_of_mem

theorem get?_eq_none_iff (b : Bindings) {token : Token} :
    b.get? token = none ↔ token ∉ b.tokens := by
  rw [← not_iff_not, not_not, ← ne_eq, Option.ne_none_iff_exists']
  constructor
  · rintro ⟨value, hvalue⟩
    exact List.mem_map_of_mem (b.get?_eq_some_iff.mp hvalue)
  · exact b.exists_get?

section Perm

variable {b c : Bindings}

theorem get?_of_perm (h : b.entries.Perm c.entries) : b.get? = c.get? := by
  funext token
  refine Option.ext fun value => ?_
  rw [get?_eq_some_iff, get?_eq_some_iff, h.mem_iff]

theorem tokens_of_perm (h : b.entries.Perm c.entries) : b.tokens.Perm c.tokens := h.map Prod.fst

end Perm

/-- The bindings after insertions in the given order. -/
def ofEntries (entries : List (Token × BoundValue)) : Bindings :=
  entries.foldl (fun b entry => b.insert entry.1 entry.2) empty

/-- Insertions of new tokens are stored in their order. -/
theorem entries_foldl_insert {entries : List (Token × BoundValue)} {b : Bindings}
    (h : (b.tokens ++ entries.map Prod.fst).Nodup) :
    (entries.foldl (fun b entry => b.insert entry.1 entry.2) b).entries =
      b.entries ++ entries := by
  induction entries generalizing b with
  | nil => simp
  | cons entry rest ih =>
      have hnew : entry.1 ∉ b.tokens := fun hmem =>
        List.disjoint_of_nodup_append h hmem (by simp)
      have hrest : ((b.insert entry.1 entry.2).tokens ++ rest.map Prod.fst).Nodup := by
        simpa [hnew] using h
      rw [List.foldl_cons, ih hrest, Draft.entries_insert_of_not_mem b entry.2 hnew,
        List.append_assoc]
      rfl

theorem entries_ofEntries {entries : List (Token × BoundValue)}
    (h : (entries.map Prod.fst).Nodup) : (ofEntries entries).entries = entries :=
  entries_foldl_insert (b := empty) h

end Bindings

/-! ## Left-over values -/

theorem mem_unusedTokens {values : Bindings} {seen : List Token} {t : Token} :
    t ∈ unusedTokens values seen ↔ t ∈ values.tokens ∧ t ∉ seen := by
  rw [unusedTokens, (List.mergeSort_perm _ _).mem_iff, List.mem_filter]
  simp

theorem Token.nameLe_iff {a b : Token} : a.nameLe b = true ↔ a.name ≤ b.name := by
  rw [nameLe, Bool.not_eq_true', decide_eq_false_iff_not, String.not_lt]

/-- The left-over tokens are listed by ascending names. -/
theorem pairwise_unusedTokens (values : Bindings) (seen : List Token) :
    (unusedTokens values seen).Pairwise fun a b => a.name < b.name := by
  have hsorted : (unusedTokens values seen).Pairwise fun a b => a.nameLe b = true := by
    refine List.pairwise_mergeSort ?_ ?_ _
    · intro a b c hab hbc
      exact Token.nameLe_iff.mpr
        (String.le_trans (Token.nameLe_iff.mp hab) (Token.nameLe_iff.mp hbc))
    · intro a b
      rw [Bool.or_eq_true, Token.nameLe_iff, Token.nameLe_iff]
      exact String.le_total a.name b.name
  have hdistinct : (unusedTokens values seen).Nodup := by
    rw [unusedTokens, (List.mergeSort_perm _ _).nodup_iff]
    exact List.Nodup.filter _ values.distinct
  refine hsorted.imp₂ (fun a b hle hne => ?_) hdistinct
  refine String.not_le.mp fun hge => hne (Token.name_injective ?_)
  exact String.le_antisymm (Token.nameLe_iff.mp hle) hge

/-- A list of tokens by ascending names is determined by its members. -/
theorem eq_of_ascending {ts us : List Token} (ht : ts.Pairwise fun a b => a.name < b.name)
    (hu : us.Pairwise fun a b => a.name < b.name) (hsame : ∀ t, t ∈ ts ↔ t ∈ us) : ts = us := by
  have hne : ∀ {a b : Token}, a.name < b.name → a ≠ b := by
    rintro a _ hlt rfl
    exact String.lt_irrefl _ hlt
  have hperm : ts.Perm us := (List.perm_ext_iff_of_nodup (ht.imp hne) (hu.imp hne)).mpr hsame
  refine hperm.eq_of_pairwise (fun a b _ _ hab hba => ?_) ht hu
  exact absurd (String.lt_trans hab hba) (String.lt_irrefl _)

theorem unusedTokens_congr {b c : Bindings} (h : b.entries.Perm c.entries) (seen : List Token) :
    unusedTokens b seen = unusedTokens c seen := by
  refine eq_of_ascending (pairwise_unusedTokens b seen) (pairwise_unusedTokens c seen) fun t => ?_
  rw [mem_unusedTokens, mem_unusedTokens, (Bindings.tokens_of_perm h).mem_iff]

/-! ## The first stray hole -/

/-- The leftmost token that has no value or occurs a second time, with the tokens before it. -/
structure FirstStray (values : Bindings) (tokens before : List Token) (token : Token) : Prop where
  /-- The token stands directly behind the others. -/
  stands : ∃ after, tokens = before ++ token :: after
  /-- The token has no value, or it occurs further left. -/
  stray : token ∉ values.tokens ∨ token ∈ before
  /-- Nothing further left is stray. -/
  clean : Clean values before

theorem Clean.concat {values : Bindings} {tokens : List Token} {token : Token}
    (h : Clean values tokens) (hbound : token ∈ values.tokens) (hnew : token ∉ tokens) :
    Clean values (tokens ++ [token]) := by
  refine ⟨List.forall_mem_append.mpr ⟨h.bound, List.forall_mem_singleton.mpr hbound⟩, ?_⟩
  rw [← List.concat_eq_append]
  exact h.distinct.concat hnew

/-- Tokens that are not clean have a first stray one. -/
theorem exists_firstStray {values : Bindings} {tokens : List Token} (h : ¬ Clean values tokens) :
    ∃ before token, FirstStray values tokens before token := by
  induction tokens using List.reverseRecOn with
  | nil => exact absurd ⟨by simp, .nil⟩ h
  | append_singleton tokens token ih =>
      by_cases hclean : Clean values tokens
      · -- All but the last token are clean, so the last one is stray.
        refine ⟨tokens, token, ⟨[], rfl⟩, ?_, hclean⟩
        by_contra hstray
        obtain ⟨hbound, hnew⟩ := not_or.mp hstray
        exact h (hclean.concat (not_not.mp hbound) hnew)
      · obtain ⟨before, stray, ⟨after, rfl⟩, hstray, hbefore⟩ := ih hclean
        exact ⟨before, stray, ⟨after ++ [token], by simp⟩, hstray, hbefore⟩

/-- What is said of a stray token. -/
def strayReport (values : Bindings) (token : Token) : Inconsistency :=
  if token ∈ values.tokens then .repeated token else .unbound token

/-- Filling ends at the first hole that has no value or was seen before. -/
theorem fill_of_stray (dialect : Dialect) {values : Bindings} {segments : List Segment}
    {seen before after : List Token} {token : Token}
    (hholes : holes segments = before ++ token :: after) (hclean : Clean values (before ++ seen))
    (hstray : token ∉ values.tokens ∨ token ∈ before ++ seen) :
    fill values dialect seen segments = .error (strayReport values token) := by
  induction segments generalizing seen before with
  | nil => simp [holes] at hholes
  | cons s rest ih =>
      cases s with
      | literal text =>
          rw [fill, ih hholes hclean hstray]
          rfl
      | hole first =>
          cases before with
          | nil =>
              -- the hole in front is the stray one; whether it has a value is asked first
              obtain ⟨rfl, -⟩ := List.cons.inj hholes
              by_cases hbound : first ∈ values.tokens
              · obtain ⟨value, hget⟩ := values.exists_get? hbound
                have hseen : first ∈ seen := hstray.resolve_left (not_not.mpr hbound)
                simp [fill, hget, hseen, strayReport, hbound]
              · have hget := values.get?_eq_none_iff.mpr hbound
                simp [fill, hget, strayReport, hbound]
          | cons t before =>
              obtain ⟨rfl, hrest⟩ := List.cons.inj hholes
              have hmiddle : (before ++ first :: seen).Perm (first :: (before ++ seen)) :=
                List.perm_middle
              obtain ⟨value, hget⟩ := values.exists_get? (hclean.bound first List.mem_cons_self)
              rw [fill_hole dialect hget hclean.not_mem_of_cons,
                ih hrest (hclean.of_perm hmiddle) (hstray.imp_right hmiddle.mem_iff.mpr)]
              rfl

/-! ## Reconciling -/

section Reconcile

variable {segments : List Segment} {values : Bindings}

/-- Clean holes are numbered, unless there are more values than holes. -/
theorem reconcile_of_clean (dialect : Dialect) (h : Clean values (holes segments)) :
    reconcile segments values dialect =
      if (holes segments).length = values.size then
        .ok ⟨Text.trimmed (numbered dialect 0 segments), (holes segments).filterMap values.get?⟩
      else .error (.unused (unusedTokens values (holes segments))) := by
  have hclean : Clean values (holes segments ++ []) := by rwa [List.append_nil]
  have hfill := fill_of_clean dialect hclean
  rw [List.append_nil] at hfill
  rw [reconcile, hfill]
  split <;> rfl

/-- The first stray hole is reported. -/
theorem reconcile_of_firstStray (dialect : Dialect) {before : List Token} {token : Token}
    (h : FirstStray values (holes segments) before token) :
    reconcile segments values dialect = .error (strayReport values token) := by
  obtain ⟨⟨after, hholes⟩, hstray, hclean⟩ := h
  rw [reconcile, fill_of_stray dialect hholes (by rwa [List.append_nil])
    (by rwa [List.append_nil])]
  rfl

/-- Only clean holes are numbered. -/
theorem clean_of_reconcile {dialect : Dialect} {f : Fragment}
    (h : reconcile segments values dialect = .ok f) : Clean values (holes segments) := by
  by_contra hclean
  obtain ⟨before, token, hstray⟩ := exists_firstStray hclean
  rw [reconcile_of_firstStray dialect hstray] at h
  exact absurd h (by simp)

/-- The order in which the values are stored plays no part. -/
theorem reconcile_of_perm (segments : List Segment) (dialect : Dialect) {b c : Bindings}
    (h : b.entries.Perm c.entries) :
    reconcile segments b dialect = reconcile segments c dialect := by
  have htokens : ∀ t, t ∈ b.tokens ↔ t ∈ c.tokens := fun t =>
    (Bindings.tokens_of_perm h).mem_iff
  by_cases hclean : Clean b (holes segments)
  · have hclean' : Clean c (holes segments) :=
      ⟨fun t ht => (htokens t).mp (hclean.bound t ht), hclean.distinct⟩
    have hsize : b.size = c.size := h.length_eq
    rw [reconcile_of_clean dialect hclean, reconcile_of_clean dialect hclean', hsize,
      Bindings.get?_of_perm h, unusedTokens_congr h]
  · obtain ⟨before, token, hstray⟩ := exists_firstStray hclean
    have hstray' : FirstStray c (holes segments) before token := by
      refine ⟨hstray.stands, ?_, ?_, hstray.clean.distinct⟩
      · rw [← htokens]
        exact hstray.stray
      · exact fun t ht => (htokens t).mp (hstray.clean.bound t ht)
    rw [reconcile_of_firstStray dialect hstray, reconcile_of_firstStray dialect hstray',
      strayReport, strayReport, if_congr (htokens token) rfl rfl]

/-- Every clean token has its value in the list of bind values. -/
theorem map_some_filterMap_get? {tokens : List Token} (h : Clean values tokens) :
    (tokens.filterMap values.get?).map some = tokens.map values.get? := by
  induction tokens with
  | nil => rfl
  | cons token rest ih =>
      obtain ⟨value, hget⟩ := values.exists_get? (h.bound token List.mem_cons_self)
      have hrest : Clean values rest :=
        ⟨fun t ht => h.bound t (List.mem_cons_of_mem token ht), h.distinct.of_cons⟩
      rw [List.filterMap_cons_some hget, List.map_cons, List.map_cons, ih hrest, hget]

end Reconcile

/-- A text and the values of its holes make a fragment exactly if the holes are distinct and are the
tokens that have a value. The holes are then numbered from the left: the bind value of an ordinal is
the value of the hole in that place, and the text has the marker of the ordinal there. -/
theorem reconcile_numbers_from_left (segments : List Segment) (values : Bindings)
    (dialect : Dialect) :
    ((∃ f, reconcile segments values dialect = .ok f) ↔
        (holes segments).Nodup ∧ ∀ t, t ∈ holes segments ↔ t ∈ values.tokens) ∧
      ∀ f, reconcile segments values dialect = .ok f →
        f.parameters.length = (holes segments).length ∧
          (∀ (k : Nat) (token : Token), (holes segments)[k]? = some token →
            ∃ value, values.get? token = some value ∧ f.parameters[k]? = some value) ∧
          f.sql = Text.trimmed (numbered dialect 0 segments) := by
  refine ⟨⟨?_, ?_⟩, ?_⟩
  · rintro ⟨f, hf⟩
    have hclean := clean_of_reconcile hf
    have hcount : (holes segments).length = values.size := by
      by_contra hcount
      rw [reconcile_of_clean dialect hclean, if_neg hcount] at hf
      exact absurd hf (by simp)
    have hperm := hclean.length_eq_size_iff.mp hcount
    exact ⟨hclean.distinct, fun t => hperm.mem_iff⟩
  · rintro ⟨hdistinct, hsame⟩
    have hclean : Clean values (holes segments) := ⟨fun t => (hsame t).mp, hdistinct⟩
    -- distinct lists with the same members are as long as each other, which is all that is checked
    have hperm : (holes segments).Perm values.tokens :=
      (List.perm_ext_iff_of_nodup hdistinct values.distinct).mpr hsame
    exact ⟨_, by rw [reconcile_of_clean dialect hclean,
      if_pos (hclean.length_eq_size_iff.mpr hperm)]⟩
  · intro f hf
    have hclean := clean_of_reconcile hf
    rw [reconcile_of_clean dialect hclean] at hf
    split at hf
    · obtain rfl := Except.ok.inj hf
      have hvalues := map_some_filterMap_get? hclean
      refine ⟨by simpa using congrArg List.length hvalues, ?_, rfl⟩
      intro k token htoken
      obtain ⟨value, hget⟩ := values.exists_get? (hclean.bound token (List.mem_of_getElem? htoken))
      have hplace := congrArg (·[k]?) hvalues
      simp only [List.getElem?_map, htoken, Option.map_some, hget] at hplace
      exact ⟨value, hget, by simpa using hplace⟩
    · exact absurd hf (by simp)

/-- A text in which two holes stand in the reverse of the order in which their values are stored. -/
def crossed : List Segment :=
  [.literal " (", .hole ⟨.constant, 1⟩, .literal " < ", .hole ⟨.constant, 0⟩, .literal " ) "]

/-- The values of two constants. -/
def crossedValues : Bindings :=
  .ofEntries [(⟨.constant, 0⟩, .constant (.int 1) .int), (⟨.constant, 1⟩, .constant (.int 2) .int)]

theorem reconcile_numbers_crossed :
    ∃ f, reconcile crossed crossedValues .postgres = .ok f ∧ f.sql = "($1 < $2 )" ∧
      f.parameters.length = 2 ∧ f.parameters[0]? = some (.constant (.int 2) .int) := by
  obtain ⟨hiff, hnumbered⟩ := reconcile_numbers_from_left crossed crossedValues .postgres
  have hsame : ∀ t, t ∈ holes crossed ↔ t ∈ crossedValues.tokens := by
    intro t
    have hperm : (holes crossed).Perm crossedValues.tokens := by decide
    exact hperm.mem_iff
  obtain ⟨f, hf⟩ := hiff.mpr ⟨by decide, hsame⟩
  obtain ⟨hlength, hvalues, hsql⟩ := hnumbered f hf
  obtain ⟨value, hget, hfirst⟩ := hvalues 0 ⟨.constant, 1⟩ rfl
  have hvalue : crossedValues.get? ⟨.constant, 1⟩ = some (.constant (.int 2) .int) := by decide
  rw [hvalue] at hget
  obtain rfl := Option.some.inj hget
  exact ⟨f, hf, hsql.trans (by decide), hlength, hfirst⟩

/-- A text and values that do not match have one answer, whatever the order of the values is. If
a hole has no value or occurs a second time, the leftmost such hole is named; if there is none, the
tokens without a hole are listed, each once and by ascending names. -/
theorem reconcile_names_leftmost (segments : List Segment) (values : Bindings)
    (dialect : Dialect) :
    (∀ cause, reconcile segments values dialect = .error cause →
      (((∃ t ∈ holes segments, t ∉ values.tokens) ∨ ¬ (holes segments).Nodup) →
        ∃ before token, FirstStray values (holes segments) before token ∧
          cause.message = "placeholder " ++ token.display ++
            if token ∈ values.tokens then " appears more than once in the fragment"
            else " appears in the fragment but has no bound value") ∧
      ((∀ t ∈ holes segments, t ∈ values.tokens) → (holes segments).Nodup →
        ∃ unused : List Token,
          cause.message = "bound values without a placeholder in the fragment: " ++
            ", ".intercalate (unused.map Token.display) ∧
          unused.Pairwise (fun a b => a.name < b.name) ∧
          ∀ t, t ∈ unused ↔ t ∈ values.tokens ∧ t ∉ holes segments)) ∧
    (∀ others : Bindings, others.entries.Perm values.entries →
      reconcile segments others dialect = reconcile segments values dialect) ∧
    ∀ entries others : List (Token × BoundValue), (entries.map Prod.fst).Nodup →
      others.Perm entries →
      reconcile segments (.ofEntries others) dialect =
        reconcile segments (.ofEntries entries) dialect := by
  refine ⟨fun cause hcause => ⟨?_, ?_⟩, ?_, ?_⟩
  · intro hstray
    have hclean : ¬ Clean values (holes segments) := by
      intro hclean
      rcases hstray with ⟨t, ht, hunbound⟩ | hrepeated
      · exact hunbound (hclean.bound t ht)
      · exact hrepeated hclean.distinct
    obtain ⟨before, token, hfirst⟩ := exists_firstStray hclean
    rw [reconcile_of_firstStray dialect hfirst] at hcause
    obtain rfl := Except.error.inj hcause
    refine ⟨before, token, hfirst, ?_⟩
    rw [strayReport]
    split <;> rfl
  · intro hbound hdistinct
    rw [reconcile_of_clean dialect ⟨hbound, hdistinct⟩] at hcause
    split at hcause
    · exact absurd hcause (by simp)
    · obtain rfl := Except.error.inj hcause
      exact ⟨_, rfl, pairwise_unusedTokens values _, fun t => mem_unusedTokens⟩
  · intro others hperm
    exact reconcile_of_perm segments dialect hperm
  · intro entries others hdistinct hperm
    have hdistinct' : (others.map Prod.fst).Nodup := (hperm.map Prod.fst).nodup_iff.mpr hdistinct
    refine reconcile_of_perm segments dialect ?_
    rwa [Bindings.entries_ofEntries hdistinct, Bindings.entries_ofEntries hdistinct']

/-- A text whose first hole occurs a second time before one that has no value. -/
def tangled : List Segment :=
  [.hole ⟨.constant, 0⟩, .literal " = ", .hole ⟨.constant, 0⟩, .hole ⟨.sourced, 7⟩]

/-- The values of three constants. -/
def scarceEntries : List (Token × BoundValue) :=
  [(⟨.constant, 2⟩, .constant .null .int), (⟨.constant, 0⟩, .constant .null .int),
    (⟨.constant, 10⟩, .constant .null .int)]

theorem reconcile_names_leftmost_tangled :
    (∃ cause before token, reconcile tangled (.ofEntries scarceEntries) .generic = .error cause ∧
        FirstStray (.ofEntries scarceEntries) (holes tangled) before token ∧
        cause.message = "placeholder [const0] appears more than once in the fragment") ∧
      (∃ cause, reconcile (tangled.take 2) (.ofEntries scarceEntries) .generic = .error cause ∧
        cause.message =
          "bound values without a placeholder in the fragment: [const10], [const2]") ∧
      reconcile (tangled.take 2) (.ofEntries scarceEntries.reverse) .generic =
        reconcile (tangled.take 2) (.ofEntries scarceEntries) .generic := by
  have htokens : (Bindings.ofEntries scarceEntries).tokens =
      [⟨.constant, 2⟩, ⟨.constant, 0⟩, ⟨.constant, 10⟩] := by decide
  have hholes : holes (tangled.take 2) = [⟨.constant, 0⟩] := rfl
  refine ⟨?_, ?_, ?_⟩
  · have hanswer : reconcile tangled (.ofEntries scarceEntries) .generic =
        .error (.repeated ⟨.constant, 0⟩) := by decide
    obtain ⟨hfails, -, -⟩ := reconcile_names_leftmost tangled (.ofEntries scarceEntries) .generic
    obtain ⟨hstray, -⟩ := hfails _ hanswer
    obtain ⟨before, token, hfirst, -⟩ := hstray (.inr (by decide))
    exact ⟨_, before, token, hanswer, hfirst, by decide⟩
  · obtain ⟨hfails, -, -⟩ :=
      reconcile_names_leftmost (tangled.take 2) (.ofEntries scarceEntries) .generic
    obtain ⟨-, hunused⟩ := hfails _ rfl
    obtain ⟨unused, hmessage, hsorted, hmem⟩ := hunused (by decide) (by decide)
    have hlist : unused = [⟨.constant, 10⟩, ⟨.constant, 2⟩] := by
      refine eq_of_ascending hsorted (by decide) fun t => ?_
      rw [hmem, htokens, hholes]
      grind
    subst hlist
    exact ⟨_, rfl, hmessage.trans (by decide)⟩
  · obtain ⟨-, -, hany⟩ :=
      reconcile_names_leftmost (tangled.take 2) (.ofEntries scarceEntries) .generic
    exact hany scarceEntries scarceEntries.reverse (by decide) (List.reverse_perm _)

end Pushdown
