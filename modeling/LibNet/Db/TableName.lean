import LibNet.Db.ResultJson
import LibNet.Db.Statements

/-!
# The table name

How `open_db` finds the name of the table in the text of a statement: it copies the text
to the array `temp_sql`, has `strtok` cut the array into tokens until it sees `from` or
`*from`, takes the next token and cuts a semicolon off its end.  `strtok` keeps a position
between its calls and writes zeros into the array.
-/

namespace LibNet.Db

open Connection (tempSqlSize)

/-- The string that begins at a position of an array. -/
def stringAt (text : List Char) (position : Nat) : List Char := cString (text.drop position)

/-- The array, and the position that `strtok` keeps. -/
structure Strtok where
  text : List Char
  saved : Nat

/-- `strtok(par, " ")`: the position of the token, if there is one.  It goes on at the saved
position if `par` is null. -/
def Strtok.next (state : Strtok) (par : Option Nat) : Option Nat × Strtok :=
  let searched := par.getD state.saved
  let start := searched + ((stringAt state.text searched).takeWhile (· == ' ')).length
  let token := (stringAt state.text start).takeWhile (· != ' ')
  if token = [] then (none, { state with saved := start })
  else
    let stop := start + token.length
    -- The last token is not cut off, for the string ends there.
    if stringAt state.text stop = [] then (some start, { state with saved := stop })
    else (some start, ⟨state.text.set stop '\x00', stop + 1⟩)

/-- Whether `strcasecmp` returns 0. -/
def strcasecmp (first second : List Char) : Bool :=
  first.map Char.toLower == second.map Char.toLower

/-- `memset(text + position, 0, count)`. -/
def memsetZero (text : List Char) (position count : Nat) : List Char :=
  text.take position ++ List.replicate count '\x00' ++ text.drop (position + count)

/-- `temp_sql` after `memset` and `strncpy`.  A statement without room for its terminating
zero leaves no string there. -/
def tempSql? (sql : List Char) : Option (List Char) :=
  if (cString sql).length < tempSqlSize then
    some (cString sql ++ List.replicate (tempSqlSize - (cString sql).length) '\x00')
  else none

/-- The tokens after which the table name is expected. -/
def isFrom (token : List Char) : Bool :=
  strcasecmp token "from".toList || strcasecmp token "*from".toList

/-- The loop over the tokens: `table_name`, `flag_strtok` and the array. -/
def tableLoop? : (fuel : Nat) → (par : Option Nat) → Strtok → Option (Option Nat × Bool × Strtok)
  | 0, _, _ => none
  | fuel + 1, par, state =>
      match state.next par with
      | (none, after) => some (none, false, after)
      | (some tableName, after) =>
          if isFrom (stringAt after.text tableName) then
            let follows := after.next none
            some (follows.1, true, follows.2)
          else tableLoop? fuel none after

/-- The array after a semicolon at the end of the token is cut off. -/
def cutSemicolon (text : List Char) (tableName : Nat) : List Char :=
  if (stringAt text tableName).getLast? = some ';' then
    text.set (tableName + (stringAt text tableName).length - 1) '\x00'
  else text

/-- What is done to the array after the loop. -/
def finishTable (text : List Char) (tableName : Option Nat) (flagStrtok : Bool) : List Char :=
  match tableName with
  | none => text
  | some position =>
      let cut := cutSemicolon text position
      if flagStrtok then cut else memsetZero cut position (stringAt cut position).length

/-- The table name of a statement, `none` inside for a null `table_name`. -/
def tableName? (sql : List Char) (saved : Nat) : Option (Option (List Char)) :=
  match tempSql? sql with
  | none => none
  | some text =>
      match tableLoop? (text.length + 1) (some 0) ⟨text, saved⟩ with
      | none => none
      | some (tableName, flagStrtok, state) =>
          some (tableName.map (stringAt (finishTable state.text tableName flagStrtok)))

/-- The tokens of a text: what stands between spaces, without the empty ones. -/
def tokens (text : List Char) : List (List Char) :=
  (text.splitOn ' ').filter (· ≠ [])

/-- A token without the semicolon at its end. -/
def withoutSemicolon (token : List Char) : List Char :=
  if token.getLast? = some ';' then token.dropLast else token

/-- Each letter of the word stands in the token, small or as a capital. -/
def InAnyCase (word token : List Char) : Prop :=
  List.Forall₂ (fun letter char => char = letter ∨ char = letter.toUpper) word token

instance (word token : List Char) : Decidable (InAnyCase word token) :=
  inferInstanceAs (Decidable (List.Forall₂ _ _ _))

/-- The token announces a table. -/
def MeansFrom (token : List Char) : Prop :=
  InAnyCase "from".toList token ∨ InAnyCase "*from".toList token

instance (token : List Char) : Decidable (MeansFrom token) :=
  inferInstanceAs (Decidable (_ ∨ _))

/-- The token after the first one that is `from` or `*from`. -/
def tokenAfterFrom (items : List (List Char)) : Option (List Char) :=
  (items.dropWhile fun token => ¬ MeansFrom token)[1]?

/-- The table name that is meant. -/
def tableNameOf (sql : List Char) : List Char :=
  ((tokenAfterFrom (tokens sql)).map withoutSemicolon).getD []

/-! ## Strings in an array -/

theorem cString_cons {char : Char} (nonzero : char ≠ '\x00') (rest : List Char) :
    cString (char :: rest) = char :: cString rest := by
  simp [cString, nonzero]

theorem cString_drop {text : List Char} {count : Nat} (inside : count ≤ (cString text).length) :
    cString (text.drop count) = (cString text).drop count := by
  induction text generalizing count with
  | nil => simp [cString]
  | cons char rest ih =>
      cases count with
      | zero => rfl
      | succ less =>
          by_cases zero : char = '\x00'
          · simp [cString, zero] at inside
          · rw [cString_cons zero, List.length_cons] at inside
            rw [cString_cons zero, List.drop_succ_cons, List.drop_succ_cons]
            exact ih (Nat.le_of_succ_le_succ inside)

theorem cString_set {text : List Char} {count : Nat} (inside : count < (cString text).length) :
    cString (text.set count '\x00') = (cString text).take count := by
  induction text generalizing count with
  | nil => simp [cString] at inside
  | cons char rest ih =>
      by_cases zero : char = '\x00'
      · simp [cString, zero] at inside
      · rw [cString_cons zero, List.length_cons] at inside
        cases count with
        | zero => simp [cString]
        | succ less =>
            rw [List.set_cons_succ, cString_cons zero, cString_cons zero, List.take_succ_cons,
              ih (Nat.lt_of_succ_lt_succ inside)]

theorem stringAt_add {text : List Char} {position count : Nat}
    (inside : count ≤ (stringAt text position).length) :
    stringAt text (position + count) = (stringAt text position).drop count := by
  rw [stringAt, ← List.drop_drop, cString_drop inside]
  rfl

/-- A zero written into a string ends it there. -/
theorem stringAt_set {text : List Char} {position count : Nat}
    (inside : count < (stringAt text position).length) :
    stringAt (text.set (position + count) '\x00') position =
      (stringAt text position).take count := by
  rw [stringAt, List.drop_set, if_neg (Nat.not_lt.mpr (Nat.le_add_right _ _)),
    Nat.add_sub_cancel_left, cString_set inside]
  rfl

/-- What stands behind the zero is not changed. -/
theorem stringAt_set_of_lt {text : List Char} {position other : Nat} (behind : position < other) :
    stringAt (text.set position '\x00') other = stringAt text other := by
  rw [stringAt, List.drop_set_of_lt behind]
  rfl

theorem tokens_space (text : List Char) : tokens (' ' :: text) = tokens text := by
  have split : (' ' :: text).splitOn ' ' = [] :: text.splitOn ' ' :=
    List.splitOn_append_cons_self_of_not_mem List.not_mem_nil text
  rw [tokens, split, List.filter_cons_of_neg (by simp)]
  rfl

theorem tokens_dropWhile (text : List Char) :
    tokens (text.dropWhile (· == ' ')) = tokens text := by
  induction text with
  | nil => rfl
  | cons char rest ih =>
      by_cases space : char = ' '
      · subst space
        rw [List.dropWhile_cons_of_pos (by simp), tokens_space]
        exact ih
      · rw [List.dropWhile_cons_of_neg (by simpa using space)]

/-- A token in front of a space. -/
theorem tokens_append {token : List Char} (some_chars : token ≠ []) (spaceless : ' ' ∉ token)
    (rest : List Char) : tokens (token ++ ' ' :: rest) = token :: tokens rest := by
  rw [tokens, List.splitOn_append_cons_self_of_not_mem spaceless,
    List.filter_cons_of_pos (by simpa using some_chars)]
  rfl

/-- A token at the end. -/
theorem tokens_single {token : List Char} (some_chars : token ≠ []) (spaceless : ' ' ∉ token) :
    tokens token = [token] := by
  rw [tokens, List.splitOn_eq_singleton spaceless,
    List.filter_cons_of_pos (by simpa using some_chars)]
  rfl

theorem drop_length_takeWhile (passes : Char → Bool) (text : List Char) :
    text.drop (text.takeWhile passes).length = text.dropWhile passes := by
  calc text.drop (text.takeWhile passes).length
      = (text.takeWhile passes ++ text.dropWhile passes).drop (text.takeWhile passes).length := by
        rw [List.takeWhile_append_dropWhile]
    _ = text.dropWhile passes := List.drop_left

/-- A scan stops at the end or at a character that it does not pass. -/
theorem dropWhile_stops {passes : Char → Bool} {text rest : List Char} {char : Char}
    (stopped : text.dropWhile passes = char :: rest) : passes char = false := by
  have nonempty : text.dropWhile passes ≠ [] := by
    rw [stopped]
    exact List.cons_ne_nil _ _
  have head := List.head_dropWhile_not passes nonempty
  simpa only [stopped, List.head_cons] using head

/-- The two ways a text without leading spaces begins: with the last token, or with a token
and a space. -/
theorem tokens_of_token {text token : List Char} (isToken : text.takeWhile (· != ' ') = token)
    (some_chars : token ≠ []) :
    text = token ∧ tokens text = [token] ∨
      ∃ rest, text = token ++ ' ' :: rest ∧ tokens text = token :: tokens rest := by
  have spaceless : ' ' ∉ token := by
    intro member
    rw [← isToken] at member
    simpa using List.mem_takeWhile_imp member
  have parts : text = token ++ text.dropWhile (· != ' ') := by
    rw [← isToken, List.takeWhile_append_dropWhile]
  cases behind : text.dropWhile (· != ' ') with
  | nil =>
      rw [behind, List.append_nil] at parts
      exact .inl ⟨parts, by rw [parts, tokens_single some_chars spaceless]⟩
  | cons char rest =>
      obtain rfl : char = ' ' := by simpa using dropWhile_stops behind
      rw [behind] at parts
      exact .inr ⟨rest, parts, by rw [parts, tokens_append some_chars spaceless]⟩

/-- How a call of `strtok` goes on the rest of the string: it finds no token, or it finds the
first one and leaves the others to be found. -/
inductive Finds (rest : List Char) : Option Nat × Strtok → Prop where
  | nothing (after : Strtok) (none_left : tokens rest = []) : Finds rest (none, after)
  | token (start : Nat) (after : Strtok)
      (found : tokens rest =
        stringAt after.text start :: tokens (stringAt after.text after.saved))
      (shorter : (stringAt after.text after.saved).length < rest.length) :
      Finds rest (some start, after)

/-- A token at a position, with what `strtok` does behind it: at the end of the string there
is nothing to cut off. -/
theorem finds_at {text rest token : List Char} {start : Nat}
    (isToken : (stringAt text start).takeWhile (· != ' ') = token) (some_chars : token ≠ [])
    (same : tokens rest = tokens (stringAt text start))
    (fewer : (stringAt text start).length ≤ rest.length) :
    Finds rest
      (if stringAt text (start + token.length) = [] then
        (some start, ⟨text, start + token.length⟩)
      else (some start, ⟨text.set (start + token.length) '\x00', start + token.length + 1⟩)) := by
  have counted : token.length ≤ (stringAt text start).length := by
    rw [← isToken]
    exact (List.takeWhile_sublist _).length_le
  have behind := stringAt_add counted
  have positive := List.length_pos_iff.mpr some_chars
  rcases tokens_of_token isToken some_chars with ⟨whole, last⟩ | ⟨others, parts, first⟩
  · rw [whole, List.drop_length] at behind
    rw [if_pos behind]
    refine .token _ _ ?_ ?_
    · rw [same, last, whole, behind]
      rfl
    · rw [behind]
      exact Nat.lt_of_lt_of_le positive (Nat.le_trans counted fewer)
  · rw [parts, List.drop_left] at behind
    have one : 1 ≤ (stringAt text (start + token.length)).length := by
      rw [behind, List.length_cons]
      exact Nat.succ_pos _
    have next : stringAt text (start + token.length + 1) = others := by
      rw [stringAt_add one, behind]
      rfl
    rw [parts, List.length_append, List.length_cons] at fewer
    rw [if_neg (by rw [behind]; exact List.cons_ne_nil _ _)]
    refine .token _ _ ?_ ?_
    · have inside : token.length < (stringAt text start).length := by
        rw [parts, List.length_append, List.length_cons]
        exact Nat.lt_add_of_pos_right (Nat.succ_pos _)
      rw [same, first, stringAt_set inside, stringAt_set_of_lt (Nat.lt_succ_self _), next,
        parts, List.take_left]
    · rw [stringAt_set_of_lt (Nat.lt_succ_self _), next]
      omega

theorem Strtok.next_finds (state : Strtok) (par : Option Nat) :
    Finds (stringAt state.text (par.getD state.saved)) (state.next par) := by
  obtain ⟨text, saved⟩ := state
  simp only [Strtok.next]
  generalize par.getD saved = searched
  generalize restIs : stringAt text searched = rest
  have passed : ((stringAt text searched).takeWhile (· == ' ')).length ≤
      (stringAt text searched).length := (List.takeWhile_sublist _).length_le
  have skipped := stringAt_add passed
  rw [restIs, drop_length_takeWhile] at skipped
  generalize searched + (rest.takeWhile (· == ' ')).length = start at skipped ⊢
  have same : tokens rest = tokens (stringAt text start) := by
    rw [skipped, tokens_dropWhile]
  generalize isToken : (stringAt text start).takeWhile (· != ' ') = token
  split
  · next empty =>
      refine .nothing _ ?_
      rw [same]
      cases here : stringAt text start with
      | nil => rfl
      | cons char others =>
          -- The spaces are skipped, so the first character would begin a token.
          have notSpace := dropWhile_stops (skipped.symm.trans here)
          rw [here, List.takeWhile_cons_of_pos (by simpa using notSpace), empty] at isToken
          cases isToken
  · next some_chars =>
      refine finds_at isToken some_chars same ?_
      rw [skipped]
      exact (List.dropWhile_sublist _).length_le

/-! ## The loop -/

theorem toLower_eq_iff {char letter : Char} (small : letter.isUpper = false) :
    char.toLower = letter ↔ char = letter ∨ char = letter.toUpper := by
  constructor
  · intro same
    cases capital : char.isUpper with
    | false =>
        rw [Char.toLower_eq_of_not_isUpper (by simp [capital])] at same
        exact .inl same
    | true =>
        have notLower : ¬ char.isLower = true := Char.not_isLower_of_isUpper capital
        rw [← same, Char.toUpper_toLower_eq_toUpper, Char.toUpper_eq_of_not_isLower notLower]
        exact .inr rfl
  · have unchanged : letter.toLower = letter := Char.toLower_eq_of_not_isUpper (by simp [small])
    rintro (rfl | rfl)
    · exact unchanged
    · rw [Char.toLower_toUpper_eq_toLower, unchanged]

/-- `strcasecmp` with a word in small letters. -/
theorem strcasecmp_iff {word : List Char} (small : ∀ letter ∈ word, letter.isUpper = false)
    (token : List Char) : strcasecmp token word = true ↔ InAnyCase word token := by
  have unchanged : word.map Char.toLower = word :=
    (List.map_congr_left fun letter member =>
      Char.toLower_eq_of_not_isUpper (by simp [small letter member])).trans (List.map_id' word)
  rw [strcasecmp, beq_iff_eq, unchanged]
  clear unchanged
  induction word generalizing token with
  | nil => simp [InAnyCase]
  | cons letter rest ih =>
      obtain ⟨first, others⟩ := List.forall_mem_cons.mp small
      cases token with
      | nil => simp [InAnyCase]
      | cons char token =>
          simp only [InAnyCase, List.map_cons, List.cons.injEq, List.forall₂_cons,
            toLower_eq_iff first]
          exact and_congr_right fun _ => ih others token

theorem isFrom_iff (token : List Char) : isFrom token = true ↔ MeansFrom token := by
  rw [isFrom, Bool.or_eq_true, strcasecmp_iff (by simp), strcasecmp_iff (by simp)]
  rfl

theorem tokenAfterFrom_skip {token : List Char} (other : ¬ MeansFrom token)
    (items : List (List Char)) : tokenAfterFrom (token :: items) = tokenAfterFrom items := by
  rw [tokenAfterFrom, List.dropWhile_cons_of_pos (by simp [other])]
  rfl

theorem tokenAfterFrom_from {token : List Char} (here : MeansFrom token)
    (items : List (List Char)) : tokenAfterFrom (token :: items) = items.head? := by
  rw [tokenAfterFrom, List.dropWhile_cons_of_neg (by simp [here]), List.getElem?_cons_succ,
    List.head?_eq_getElem?]

/-- The token `strtok` returns is the first of the rest of the string. -/
theorem Finds.head {rest : List Char} {result : Option Nat × Strtok} (finds : Finds rest result) :
    result.1.map (stringAt result.2.text) = (tokens rest).head? := by
  cases finds with
  | nothing after none_left => rw [none_left]; rfl
  | token start after found shorter => rw [found]; rfl

/-- How the loop ends on the rest of the string: `flag_strtok` is set unless `table_name` is
null, and `table_name` points to the token after `from`. -/
structure LoopEnds (rest : List Char) (tableName : Option Nat) (flagStrtok : Bool)
    (state : Strtok) : Prop where
  flagged : tableName.isSome → flagStrtok = true
  named : tableName.map (stringAt state.text) = tokenAfterFrom (tokens rest)

/-- Every turn cuts off a token, so the string that is left to search gets shorter. -/
theorem tableLoop?_ends (fuel : Nat) (par : Option Nat) (state : Strtok)
    (enough : (stringAt state.text (par.getD state.saved)).length < fuel) :
    ∃ tableName flagStrtok after,
      tableLoop? fuel par state = some (tableName, flagStrtok, after) ∧
        LoopEnds (stringAt state.text (par.getD state.saved)) tableName flagStrtok after := by
  induction fuel generalizing par state with
  | zero => exact absurd enough (Nat.not_lt_zero _)
  | succ fuel ih =>
      have finds := state.next_finds par
      generalize stringAt state.text (par.getD state.saved) = rest at enough finds ⊢
      generalize found : state.next par = result at finds
      rw [tableLoop?, found]
      cases finds with
      | nothing after none_left =>
          refine ⟨none, false, after, rfl, ?_, ?_⟩
          · intro isSome
            cases isSome
          · rw [none_left]
            rfl
      | token start after first shorter =>
          by_cases here : isFrom (stringAt after.text start) = true
          · refine ⟨(after.next none).1, true, (after.next none).2, if_pos here, fun _ => rfl, ?_⟩
            rw [first, tokenAfterFrom_from ((isFrom_iff _).mp here)]
            exact (after.next_finds none).head
          · obtain ⟨tableName, flagStrtok, last, looped, flagged, named⟩ :=
              ih none after (Nat.lt_of_lt_of_le shorter (Nat.le_of_lt_succ enough))
            refine ⟨tableName, flagStrtok, last, (if_neg here).trans looped, flagged, ?_⟩
            rw [first, tokenAfterFrom_skip (mt (isFrom_iff _).mpr here)]
            exact named

theorem stringAt_cutSemicolon (text : List Char) (position : Nat) :
    stringAt (cutSemicolon text position) position =
      withoutSemicolon (stringAt text position) := by
  by_cases semicolon : (stringAt text position).getLast? = some ';'
  · have some_chars : 0 < (stringAt text position).length := by
      refine List.length_pos_iff.mpr fun empty => ?_
      rw [empty] at semicolon
      cases semicolon
    rw [cutSemicolon, if_pos semicolon, withoutSemicolon, if_pos semicolon,
      Nat.add_sub_assoc some_chars, stringAt_set (Nat.sub_lt some_chars Nat.one_pos),
      List.dropLast_eq_take]
  · rw [cutSemicolon, if_neg semicolon, withoutSemicolon, if_neg semicolon]

theorem LoopEnds.finished {rest : List Char} {tableName : Option Nat} {flagStrtok : Bool}
    {state : Strtok} (ends : LoopEnds rest tableName flagStrtok state) :
    tableName.map (stringAt (finishTable state.text tableName flagStrtok)) =
      (tokenAfterFrom (tokens rest)).map withoutSemicolon := by
  obtain ⟨flagged, named⟩ := ends
  rw [← named]
  cases tableName with
  | none => rfl
  | some position =>
      obtain rfl := flagged rfl
      exact congrArg some (stringAt_cutSemicolon state.text position)

theorem cString_append_zero {text : List Char} (zeroless : '\x00' ∉ text) (rest : List Char) :
    cString (text ++ '\x00' :: rest) = text := by
  have passed : ∀ char ∈ text, decide (char ≠ '\x00') = true :=
    fun char member => decide_eq_true fun zero => zeroless (zero ▸ member)
  rw [cString, List.takeWhile_append_of_pos passed, List.takeWhile_cons_of_neg (by decide),
    List.append_nil]

/-- `memset` leaves zeros behind the copy of the statement, so it ends where the statement
does. -/
theorem stringAt_tempSql {sql text : List Char} (copied : tempSql? sql = some text) :
    stringAt text 0 = cString sql := by
  rw [tempSql?] at copied
  split at copied
  · next room =>
      cases copied
      obtain ⟨more, count⟩ := Nat.exists_eq_add_of_lt room
      have behind : tempSqlSize - (cString sql).length = more + 1 := by omega
      rw [stringAt, List.drop_zero, behind, List.replicate_succ,
        cString_append_zero (zero_notMem_cString sql)]
  · cases copied

theorem cString_cString (text : List Char) : cString (cString text) = cString text :=
  List.takeWhile_eq_self_iff.mpr fun _ member =>
    decide_eq_true fun zero => zero_notMem_cString text (zero ▸ member)

/-- A name that `tableName?` finds is a string of the array. -/
theorem cString_tableName {sql : List Char} {saved : Nat} {name : Option (List Char)}
    (named : tableName? sql saved = some name) : cString (name.getD []) = name.getD [] := by
  rw [tableName?] at named
  split at named
  · cases named
  · split at named
    · cases named
    · next tableName flagStrtok state _ =>
        cases named
        cases tableName with
        | none => rfl
        | some position => exact cString_cString _

/-- A statement that fits into `temp_sql` has the table name that is meant. -/
theorem tableName?_eq {sql : List Char} (short : (cString sql).length ≤ 199) (saved : Nat) :
    tableName? sql saved =
      some ((tokenAfterFrom (tokens (cString sql))).map withoutSemicolon) := by
  obtain ⟨text, copied⟩ : ∃ text, tempSql? sql = some text :=
    ⟨_, if_pos (Nat.lt_succ_of_le short)⟩
  have whole := stringAt_tempSql copied
  have enough : (stringAt text 0).length < text.length + 1 :=
    Nat.lt_succ_of_le (length_cString_le text)
  obtain ⟨tableName, flagStrtok, after, looped, ends⟩ :=
    tableLoop?_ends (text.length + 1) (some 0) ⟨text, saved⟩ enough
  have finished := ends.finished
  simp only [Option.getD_some, whole] at finished
  simp only [tableName?, copied, looped, finished]

/--
For a statement of at most 199 bytes, the name in the text of the result set is the token
after the first `from` or `*from`, without a semicolon at its end, and nothing if there is
no such token.
-/
theorem table_name_is_token_after_from (sql : List Char) (saved : Nat) (result : ResultSet)
    (short : (cString sql).length ≤ 199) :
    ∃ tableName, tableName? sql saved = some tableName ∧
      tableName.getD [] = tableNameOf (cString sql) ∧
      mPResult tableName result =
        tableText (tableNameOf (cString sql)) (result.fields.map copiedFields) := by
  have named := tableName?_eq short saved
  refine ⟨_, named, rfl, ?_⟩
  rw [mPResult_eq, cString_tableName named]
  rfl

/-- A statement with two spaces, a `from` in capitals and a semicolon. -/
theorem table_name_of_user :
    (cString "select *  FROM user;".toList).length ≤ 199 ∧
      tableNameOf (cString "select *  FROM user;".toList) = "user".toList ∧
      ∃ tableName, tableName? "select *  FROM user;".toList 0 = some tableName ∧
        tableName.getD [] = "user".toList := by
  have token : tableNameOf (cString "select *  FROM user;".toList) = "user".toList := by decide
  obtain ⟨tableName, named, same, _⟩ := table_name_is_token_after_from
    "select *  FROM user;".toList 0 oneCell (by decide)
  exact ⟨by decide, token, tableName, named, same.trans token⟩

end LibNet.Db
