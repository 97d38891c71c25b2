import Provision.Command.Record
import Provision.Proofs.Relexing
import Provision.Proofs.Tables

/-!
# Written documents read back

A value that is written over several lines reads back as the document of the value with every number
as its numeral reads, as long as it is not nested deeper than a reader follows (`read_pretty_eq`):
the machine that its tokens drive comes to the document (`foldlM_tokens`), or stops where the
nesting gets too deep (`foldlM_tokens_deep`). Whoever passes over what is not asked for reads the
same wherever there is nothing that has to be passed over (`skim_of_read`). In particular a
deployment record, which has no numbers, reads back as it was (`DeploymentRecord.ofText?_text`).
-/

namespace Provision

namespace Json

/-! ## The machine that the tokens drive -/

theorem foldlM_step {s s' : State} {t : Token} {ts : List Token} (h : s.step t = some s') :
    (t :: ts).foldlM State.step s = ts.foldlM State.step s' := by
  rw [List.foldlM_cons, h]
  rfl

theorem step_first {t : Token} {stack : List Open} (h : t ≠ .closeList) :
    (State.first stack).step t = (State.value (.list [] :: stack)).step t := by
  cases t <;> first | rfl | exact absurd rfl h

theorem tokens_eq_cons (v : Value) : ∃ t ts, tokens v = t :: ts ∧ t ≠ .closeList := by
  cases v <;> simp [tokens]

theorem tokensOfItems_eq_cons (x : Value) (xs : List Value) :
    ∃ t ts, tokensOfItems (x :: xs) = t :: ts ∧ t ≠ .closeList := by
  obtain ⟨t, ts, hts, hne⟩ := tokens_eq_cons x
  rcases xs with _ | ⟨y, ys⟩
  · exact ⟨t, ts, hts, hne⟩
  · exact ⟨t, ts ++ .comma :: tokensOfItems (y :: ys), by simp [tokensOfItems, hts], hne⟩

theorem tokensOfMembers_eq_cons (k : String) (v : Value) (ms : List (String × Value)) :
    ∃ ts, tokensOfMembers ((k, v) :: ms) = .atom (.string k) :: ts := by
  rcases ms with _ | ⟨m, ms⟩
  · exact ⟨_, rfl⟩
  · exact ⟨_, rfl⟩

mutual

theorem foldlM_tokens : ∀ (v : Value) (stack : List Open) (rest : List Token),
    stack.length + (Node.ofValue v).depth ≤ depthLimit →
      (tokens v ++ rest).foldlM State.step (.value stack)
        = rest.foldlM State.step (.done stack (Node.ofValue v))
  | .list [], stack, rest, hd => by
    have hopen : (State.value stack).step .openList = some (.first stack) := by
      simp only [Node.ofValue, Node.depth] at hd
      exact if_pos (by omega)
    simp only [tokens, tokensOfItems, List.nil_append, List.cons_append]
    rw [foldlM_step hopen]
    exact foldlM_step rfl
  | .list (x :: xs), stack, rest, hd => by
    simp only [Node.ofValue, Node.depth] at hd
    -- The first item may come where the list may still end; the others come after commas.
    have hopen : (State.value stack).step .openList = some (.first stack) := if_pos (by omega)
    have hitems := foldlM_tokensOfItems (x :: xs) [] stack rest (by simp) (by omega)
    obtain ⟨t, ts, hts, hne⟩ := tokensOfItems_eq_cons x xs
    rw [hts, List.cons_append] at hitems
    simp only [tokens, hts, List.append_assoc, List.cons_append, List.nil_append]
    rw [foldlM_step hopen, List.foldlM_cons, step_first hne, ← List.foldlM_cons, hitems]
    rfl
  | .object [], stack, rest, hd => by
    have hopen : (State.value stack).step .openObject = some (.firstKey stack) := by
      simp only [Node.ofValue, Node.depth] at hd
      exact if_pos (by omega)
    simp only [tokens, tokensOfMembers, List.nil_append, List.cons_append]
    rw [foldlM_step hopen]
    exact foldlM_step rfl
  | .object ((k, v) :: ms), stack, rest, hd => by
    simp only [Node.ofValue, Node.depth] at hd
    have hopen : (State.value stack).step .openObject = some (.firstKey stack) := if_pos (by omega)
    have hmembers := foldlM_tokensOfMembers ((k, v) :: ms) [] stack rest (by simp) (by omega)
    obtain ⟨ts, hts⟩ := tokensOfMembers_eq_cons k v ms
    rw [hts] at hmembers
    simp only [tokens, hts, List.append_assoc, List.cons_append, List.nil_append]
    rw [foldlM_step hopen]
    exact hmembers
  | .null, _, _, _ | .bool _, _, _, _ | .int _, _, _, _ | .float _, _, _, _
  | .string _, _, _, _ => rfl

theorem foldlM_tokensOfItems : ∀ (xs : List Value) (items : List Node) (stack : List Open)
    (rest : List Token), xs ≠ [] →
    stack.length + 1 + Node.depthItems (Node.ofItems xs) ≤ depthLimit →
      (tokensOfItems xs ++ .closeList :: rest).foldlM State.step (.value (.list items :: stack))
        = rest.foldlM State.step (.done stack (.list (items.reverse ++ Node.ofItems xs)))
  | [], _, _, _, hne, _ => absurd rfl hne
  | [x], items, stack, rest, _, hd => by
    simp only [Node.ofItems, Node.depthItems] at hd
    have hx := foldlM_tokens x (.list items :: stack) (.closeList :: rest)
      (by rw [List.length_cons]; omega)
    rw [tokensOfItems, hx]
    refine (foldlM_step rfl).trans ?_
    simp [Node.ofItems]
  | x :: y :: ys, items, stack, rest, _, hd => by
    simp only [Node.ofItems, Node.depthItems] at hd
    have hx := foldlM_tokens x (.list items :: stack)
      (.comma :: (tokensOfItems (y :: ys) ++ .closeList :: rest)) (by rw [List.length_cons]; omega)
    have hrest := foldlM_tokensOfItems (y :: ys) (Node.ofValue x :: items) stack rest (by simp)
      (by simp only [Node.ofItems, Node.depthItems]; omega)
    simp only [tokensOfItems, List.append_assoc, List.cons_append]
    rw [hx]
    refine (foldlM_step rfl).trans (hrest.trans ?_)
    simp [Node.ofItems]

theorem foldlM_tokensOfMembers : ∀ (ms : List (String × Value)) (entries : List (Node × Node))
    (stack : List Open) (rest : List Token), ms ≠ [] →
    stack.length + 1 + Node.depthEntries (Node.ofMembers ms) ≤ depthLimit →
      (tokensOfMembers ms ++ .closeObject :: rest).foldlM State.step (.key stack entries)
        = rest.foldlM State.step (.done stack (.mapping (entries.reverse ++ Node.ofMembers ms)))
  | [], _, _, _, hne, _ => absurd rfl hne
  | [(k, v)], entries, stack, rest, _, hd => by
    simp only [Node.ofMembers, Node.depthEntries] at hd
    have hv := foldlM_tokens v (.object entries (Node.ofString k) :: stack) (.closeObject :: rest)
      (by rw [List.length_cons]; omega)
    simp only [tokensOfMembers, List.cons_append]
    refine (foldlM_step rfl).trans ((foldlM_step rfl).trans (hv.trans ?_))
    refine (foldlM_step rfl).trans ?_
    simp [Node.ofMembers]
  | (k, v) :: m :: ms, entries, stack, rest, _, hd => by
    simp only [Node.ofMembers, Node.depthEntries] at hd
    have hv := foldlM_tokens v (.object entries (Node.ofString k) :: stack)
      (.comma :: (tokensOfMembers (m :: ms) ++ .closeObject :: rest))
      (by rw [List.length_cons]; omega)
    have hrest := foldlM_tokensOfMembers (m :: ms) ((Node.ofString k, Node.ofValue v) :: entries)
      stack rest (by simp) (by simp only [Node.ofMembers, Node.depthEntries]; omega)
    simp only [tokensOfMembers, List.append_assoc, List.cons_append]
    refine (foldlM_step rfl).trans ((foldlM_step rfl).trans (hv.trans ?_))
    refine (foldlM_step rfl).trans (hrest.trans ?_)
    simp [Node.ofMembers]

end

theorem ofTokens_tokens {v : Value} (h : (Node.ofValue v).depth ≤ depthLimit) :
    ofTokens (tokens v) = some (Node.ofValue v) := by
  have hrun := foldlM_tokens v [] [] (by rw [List.length_nil]; omega)
  rw [List.append_nil] at hrun
  rw [ofTokens, hrun]
  rfl

theorem foldlM_fails {s : State} {t : Token} {ts : List Token} (h : s.step t = none) :
    (t :: ts).foldlM State.step s = none := by
  rw [List.foldlM_cons, h]
  rfl

mutual

theorem foldlM_tokens_deep : ∀ (v : Value) (stack : List Open) (rest : List Token),
    stack.length ≤ depthLimit → depthLimit < stack.length + (Node.ofValue v).depth →
      (tokens v ++ rest).foldlM State.step (.value stack) = none
  | .list [], stack, rest, hs, hd => by
    simp only [Node.ofValue, Node.ofItems, Node.depth, Node.depthItems] at hd
    exact foldlM_fails (if_neg (by omega))
  | .list (x :: xs), stack, rest, hs, hd => by
    simp only [Node.ofValue, Node.depth] at hd
    by_cases hopen : stack.length < depthLimit
    · have hstep : (State.value stack).step .openList = some (.first stack) := if_pos hopen
      have hitems := foldlM_tokensOfItems_deep (x :: xs) [] stack rest hopen (by omega)
      obtain ⟨t, ts, hts, hne⟩ := tokensOfItems_eq_cons x xs
      rw [hts, List.cons_append] at hitems
      simp only [tokens, hts, List.append_assoc, List.cons_append, List.nil_append]
      rw [foldlM_step hstep, List.foldlM_cons, step_first hne, ← List.foldlM_cons, hitems]
    · exact foldlM_fails (if_neg hopen)
  | .object [], stack, rest, hs, hd => by
    simp only [Node.ofValue, Node.ofMembers, Node.depth, Node.depthEntries] at hd
    exact foldlM_fails (if_neg (by omega))
  | .object ((k, v) :: ms), stack, rest, hs, hd => by
    simp only [Node.ofValue, Node.depth] at hd
    by_cases hopen : stack.length < depthLimit
    · have hstep : (State.value stack).step .openObject = some (.firstKey stack) := if_pos hopen
      have hmembers := foldlM_tokensOfMembers_deep ((k, v) :: ms) [] stack rest hopen (by omega)
      obtain ⟨ts, hts⟩ := tokensOfMembers_eq_cons k v ms
      rw [hts] at hmembers
      simp only [tokens, hts, List.append_assoc, List.cons_append, List.nil_append]
      rw [foldlM_step hstep]
      exact hmembers
    · exact foldlM_fails (if_neg hopen)
  | .null, _, _, hs, hd | .bool _, _, _, hs, hd | .int _, _, _, hs, hd | .float _, _, _, hs, hd
  | .string _, _, _, hs, hd =>
    absurd hs (by simpa [Node.ofValue, Node.ofString, Node.depth] using hd)

theorem foldlM_tokensOfItems_deep : ∀ (xs : List Value) (items : List Node) (stack : List Open)
    (rest : List Token), stack.length < depthLimit →
    depthLimit < stack.length + 1 + Node.depthItems (Node.ofItems xs) →
      (tokensOfItems xs ++ .closeList :: rest).foldlM State.step (.value (.list items :: stack))
        = none
  | [], _, _, _, hs, hd => by
    simp only [Node.ofItems, Node.depthItems] at hd
    omega
  | [x], items, stack, rest, hs, hd => by
    simp only [Node.ofItems, Node.depthItems] at hd
    rw [tokensOfItems]
    exact foldlM_tokens_deep x (.list items :: stack) _ hs (by rw [List.length_cons]; omega)
  | x :: y :: ys, items, stack, rest, hs, hd => by
    simp only [Node.ofItems, Node.depthItems] at hd
    simp only [tokensOfItems, List.append_assoc, List.cons_append]
    -- Either the first item is too deep, or the machine gets past it and a later one is.
    by_cases hx : depthLimit < stack.length + 1 + (Node.ofValue x).depth
    · exact foldlM_tokens_deep x (.list items :: stack) _ hs hx
    · have hrest := foldlM_tokensOfItems_deep (y :: ys) (Node.ofValue x :: items) stack rest hs
        (by simp only [Node.ofItems, Node.depthItems]; omega)
      rw [foldlM_tokens x (.list items :: stack) _ (by rw [List.length_cons]; omega)]
      exact (foldlM_step rfl).trans hrest

theorem foldlM_tokensOfMembers_deep : ∀ (ms : List (String × Value))
    (entries : List (Node × Node)) (stack : List Open) (rest : List Token),
    stack.length < depthLimit →
    depthLimit < stack.length + 1 + Node.depthEntries (Node.ofMembers ms) →
      (tokensOfMembers ms ++ .closeObject :: rest).foldlM State.step (.key stack entries) = none
  | [], _, _, _, hs, hd => by
    simp only [Node.ofMembers, Node.depthEntries] at hd
    omega
  | [(k, v)], entries, stack, rest, hs, hd => by
    simp only [Node.ofMembers, Node.depthEntries] at hd
    have hv := foldlM_tokens_deep v (.object entries (Node.ofString k) :: stack)
      (.closeObject :: rest) hs (by rw [List.length_cons]; omega)
    simp only [tokensOfMembers, List.cons_append]
    exact (foldlM_step rfl).trans ((foldlM_step rfl).trans hv)
  | (k, v) :: m :: ms, entries, stack, rest, hs, hd => by
    simp only [Node.ofMembers, Node.depthEntries] at hd
    simp only [tokensOfMembers, List.append_assoc, List.cons_append]
    refine (foldlM_step rfl).trans ((foldlM_step rfl).trans ?_)
    by_cases hv : depthLimit < stack.length + 1 + (Node.ofValue v).depth
    · exact foldlM_tokens_deep v (.object entries (Node.ofString k) :: stack) _ hs hv
    · have hrest := foldlM_tokensOfMembers_deep (m :: ms)
        ((Node.ofString k, Node.ofValue v) :: entries) stack rest hs
        (by simp only [Node.ofMembers, Node.depthEntries]; omega)
      rw [foldlM_tokens v (.object entries (Node.ofString k) :: stack) _
        (by rw [List.length_cons]; omega)]
      exact (foldlM_step rfl).trans hrest

end

/-- What is written over several lines reads back with its numbers as they are spelt, unless it is
nested too deeply. -/
theorem read_pretty_eq (v : Value) : read (pretty v) = (respell v).bind fun w =>
    if (Node.ofValue w).depth ≤ depthLimit then some (Node.ofValue w) else none := by
  rw [read, lex_pretty]
  rcases respell v with _ | w
  · rfl
  change ofTokens (tokens w) = if _ then _ else _
  split
  · rename_i hd
    exact ofTokens_tokens hd
  · rename_i hd
    have hdeep := foldlM_tokens_deep w [] [] (Nat.zero_le _) (by rw [List.length_nil]; omega)
    rw [List.append_nil] at hdeep
    rw [ofTokens, hdeep]
    rfl

/-- A value without numbers reads back as it is. -/
theorem read_pretty {v : Value} (h : v.Numberless) (hd : (Node.ofValue v).depth ≤ depthLimit) :
    read (pretty v) = some (Node.ofValue v) := by
  rw [read_pretty_eq, respell_of_numberless h, Option.bind_some, if_pos hd]

end Json

/-! ## What is passed over -/

namespace Node

mutual

theorem within_of_depth_le : ∀ {x : Node} {room : Nat}, x.depth ≤ room → x.within room = x
  | .scalar _ _, _, _ => by rw [within]
  | .marked _, _, _ => by rw [within]
  | .list xs, 0, h => by simp [depth] at h
  | .list xs, room + 1, h => by
    rw [depth, Nat.add_le_add_iff_right] at h
    rw [within, withinItems_of_depth_le h]
  | .mapping es, 0, h => by simp [depth] at h
  | .mapping es, room + 1, h => by
    rw [depth, Nat.add_le_add_iff_right] at h
    rw [within, withinEntries_of_depth_le h]

theorem withinItems_of_depth_le : ∀ {xs : List Node} {room : Nat},
    depthItems xs ≤ room → withinItems xs room = xs
  | [], _, _ => rfl
  | x :: xs, room, h => by
    rw [depthItems, Nat.max_le] at h
    rw [withinItems, within_of_depth_le h.1, withinItems_of_depth_le h.2]

theorem withinEntries_of_depth_le : ∀ {es : List (Node × Node)} {room : Nat},
    depthEntries es ≤ room → withinEntries es room = es
  | [], _, _ => rfl
  | (k, x) :: es, room, h => by
    rw [depthEntries, Nat.max_le] at h
    rw [withinEntries, within_of_depth_le h.1, withinEntries_of_depth_le h.2]

end

end Node

namespace Json

theorem SkimMode.step_of_step {mode mode' : Mode} {c : Char} {ts : List Token}
    (h : mode.step c = some (ts, mode')) :
    (SkimMode.mode mode).step c = some (ts.map .token, .mode mode') := by
  simp only [SkimMode.step, h]

theorem SkimMode.finish_of_finish {mode : Mode} {ts : List Token} (h : mode.finish = some ts) :
    (SkimMode.mode mode).finish = some (ts.map .token) := by
  simp only [SkimMode.finish, h]

theorem partsFrom_of_lexFrom : ∀ {cs : List Char} {mode : Mode} {found ts : List Token},
    lexFrom mode found cs = some ts →
      partsFrom (.mode mode) (found.map .token) cs = some (ts.map .token)
  | [], mode, found, ts, h => by
    obtain ⟨last, hlast, rfl⟩ := Option.map_eq_some_iff.1 h
    rw [partsFrom, SkimMode.finish_of_finish hlast, Option.map_some, List.map_append,
      List.map_reverse]
  | c :: cs, mode, found, ts, h => by
    rw [lexFrom] at h
    rw [partsFrom]
    split at h
    · cases h
    · rename_i new mode' hstep
      rw [SkimMode.step_of_step hstep]
      simpa only [List.map_append, List.map_reverse] using partsFrom_of_lexFrom h

theorem foldlM_skim_of_foldlM_step : ∀ {ts : List Token} {s s' : State},
    ts.foldlM State.step s = some s' → (ts.map Part.token).foldlM State.skim s = some s'
  | [], _, _, h => h
  | t :: ts, s, s', h => by
    rw [List.foldlM_cons] at h
    obtain ⟨next, hstep, h⟩ := Option.bind_eq_some_iff.1 h
    rw [List.map_cons, List.foldlM_cons]
    have hskim : s.skim (.token t) = some next := by simp only [State.skim, hstep]
    rw [hskim]
    exact foldlM_skim_of_foldlM_step h

/-- A text that can be read as a whole is skimmed as what it is read as. -/
theorem skim_of_read {text : String} {n : Node} (h : read text = some n)
    (hd : n.depth ≤ depthLimit) : skim text = some n := by
  obtain ⟨ts, hts, h⟩ := Option.bind_eq_some_iff.1 h
  obtain ⟨s, hs, h⟩ := Option.bind_eq_some_iff.1 h
  have hparts : partsFrom (.mode .between) [] text.toList = some (ts.map .token) := by
    simpa only [List.map_nil] using partsFrom_of_lexFrom hts
  split at h
  · cases h
    rw [skim, hparts]
    change ofParts (ts.map .token) = some n
    rw [ofParts, foldlM_skim_of_foldlM_step hs]
    exact congrArg some (Node.within_of_depth_le hd)
  · cases h

end Json

/-! ## Deployment records -/

theorem Value.numberless_ofTextTable (t : Table String) : (Value.ofTextTable t).Numberless := by
  refine .object fun e he => ?_
  obtain ⟨e, -, rfl⟩ := List.mem_map.1 he
  exact .string e.2

namespace Node

theorem ofMembers_eq (ms : List (String × Value)) :
    ofMembers ms = ms.map fun e => (ofString e.1, ofValue e.2) := by
  induction ms with
  | nil => rfl
  | cons e ms ih => rw [ofMembers, ih, List.map_cons]

theorem ofValue_ofTextTable (t : Table String) : ofValue (.ofTextTable t)
    = .mapping (t.entries.map fun e => (ofString e.1, ofString e.2)) := by
  rw [Value.ofTextTable, Value.ofTable, ofValue, ofMembers_eq, Table.map, List.map_map]
  rfl

theorem depth_ofTextTable (t : Table String) : (ofValue (.ofTextTable t)).depth = 1 := by
  rw [ofValue_ofTextTable, depth]
  suffices ∀ es : List (String × String),
      depthEntries (es.map fun e => (ofString e.1, ofString e.2)) = 0 by
    rw [this]
  intro es
  induction es with
  | nil => rfl
  | cons e es ih => rw [List.map_cons, depthEntries, ih]; rfl

theorem table?_ofTextTable (t : Table String) :
    table? text? (ofValue (.ofTextTable t)) = some t := by
  rw [ofValue_ofTextTable]
  suffices ∀ es : List (String × String), ((es.map fun e => (ofString e.1, ofString e.2)).mapM
      fun x => do
        let name ← text? x.1
        let a ← text? x.2
        some (name, a)) = some es by
    change (List.mapM _ _ >>= fun fs => some (Table.ofList fs)) = _
    rw [this]
    exact congrArg some t.ofList_entries
  intro es
  induction es with
  | nil => rfl
  | cons e es ih =>
    rw [List.map_cons, List.mapM_cons, ih]
    rfl

end Node

namespace DeploymentRecord

variable (r : DeploymentRecord)

/-- The record as a value. -/
def toValue : Value :=
  .object
    [("stack_id", .string r.stackId),
     ("stack_name", .string r.stackName),
     ("bindings", .ofTextTable r.bindings),
     ("alarm_tags", .ofTextTable r.alarmTags)]

theorem numberless_toValue : r.toValue.Numberless := by
  refine .object fun e he => ?_
  simp only [List.mem_cons, List.not_mem_nil, or_false] at he
  rcases he with rfl | rfl | rfl | rfl
  · exact .string _
  · exact .string _
  · exact Value.numberless_ofTextTable _
  · exact Value.numberless_ofTextTable _

theorem depth_toValue : (Node.ofValue r.toValue).depth = 2 := by
  simp [toValue, Node.ofValue, Node.ofMembers, Node.depth, Node.depthEntries,
    Node.depth_ofTextTable, Node.ofString]

theorem ofNode?_toValue : ofNode? (Node.ofValue r.toValue) = some r := by
  have hfields : (Node.ofValue r.toValue).fields?
      ["stack_id", "stack_name", "bindings", "alarm_tags"] = some ⟨
        [("stack_id", .ofString r.stackId),
         ("stack_name", .ofString r.stackName),
         ("bindings", .ofValue (.ofTextTable r.bindings)),
         ("alarm_tags", .ofValue (.ofTextTable r.alarmTags))]⟩ := rfl
  rw [ofNode?, hfields]
  simp [Node.Fields.required, Node.Fields.withDefault, Node.Fields.find?, Node.text?,
    Node.ofString, Node.table?_ofTextTable]

/-- A record reads back as it was. -/
theorem ofText?_text : ofText? r.text = some r := by
  have hdepth : (Node.ofValue r.toValue).depth ≤ Json.depthLimit := r.depth_toValue ▸ by decide
  have hread := Json.read_pretty r.numberless_toValue hdepth
  rw [ofText?, text, ← toValue, Json.skim_of_read hread hdepth]
  exact r.ofNode?_toValue

end DeploymentRecord

end Provision
