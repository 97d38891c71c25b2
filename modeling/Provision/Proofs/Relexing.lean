import Provision.Proofs.Spelling

/-!
# Written documents taken apart

A value that is written over several lines falls into the tokens of the value with every number as
its numeral reads (`respell`), and cannot be taken apart if there is a number that has no meaning
(`lex_pretty`). A value without numbers is respelt as it is (`respell_of_numberless`).
-/

namespace Provision

/-- No number stands anywhere in the value. -/
inductive Value.Numberless : Value → Prop
  | null : Numberless .null
  | bool (b : Bool) : Numberless (.bool b)
  | string (s : String) : Numberless (.string s)
  | list {xs : List Value} : (∀ x ∈ xs, Numberless x) → Numberless (.list xs)
  | object {ms : List (String × Value)} : (∀ e ∈ ms, Numberless e.2) → Numberless (.object ms)

namespace Json

/-! ## Tokens -/

/-- The token of a value that is neither a list nor an object. -/
def scalarOf : Value → Scalar
  | .bool b => .bool b
  | .int i => .int i
  | .float x => .float x
  | .string s => .string s
  | _ => .null

mutual

/-- The tokens that a value is made of. -/
def tokens : Value → List Token
  | .list xs => .openList :: tokensOfItems xs ++ [.closeList]
  | .object ms => .openObject :: tokensOfMembers ms ++ [.closeObject]
  | v => [.atom (scalarOf v)]

@[inherit_doc tokens]
def tokensOfItems : List Value → List Token
  | [] => []
  | [x] => tokens x
  | x :: xs => tokens x ++ .comma :: tokensOfItems xs

@[inherit_doc tokens]
def tokensOfMembers : List (String × Value) → List Token
  | [] => []
  | [(k, v)] => .atom (.string k) :: .colon :: tokens v
  | (k, v) :: ms => .atom (.string k) :: .colon :: tokens v ++ .comma :: tokensOfMembers ms

end

/-- The value of a scalar. -/
def ofScalar : Scalar → Value
  | .null => .null
  | .bool b => .bool b
  | .int i => .int i
  | .float x => .float x
  | .string s => .string s

theorem tokens_ofScalar (m : Scalar) : tokens (ofScalar m) = [.atom m] := by
  rcases m with _ | _ | _ | _ | _ <;> rfl

mutual

/-- The value that a written value says: every number is what its numeral means, if it means
anything, and what has no numeral is nothing. -/
def respell : Value → Option Value
  | .int i => (spelt (Provision.Numeral.ofInt i).toList).map ofScalar
  | .float x => if x.isFinite then (spelt (float x).toList).map ofScalar else some .null
  | .list xs => (respellItems xs).map .list
  | .object ms => (respellMembers ms).map .object
  | v => some v

@[inherit_doc respell]
def respellItems : List Value → Option (List Value)
  | [] => some []
  | x :: xs => do
    let v ← respell x
    let vs ← respellItems xs
    some (v :: vs)

@[inherit_doc respell]
def respellMembers : List (String × Value) → Option (List (String × Value))
  | [] => some []
  | (k, x) :: ms => do
    let v ← respell x
    let vs ← respellMembers ms
    some ((k, v) :: vs)

end

theorem respellItems_cons {x : Value} {xs ys : List Value} (h : respellItems (x :: xs) = some ys) :
    ∃ v vs, respell x = some v ∧ respellItems xs = some vs ∧ ys = v :: vs := by
  obtain ⟨v, hv, h⟩ := Option.bind_eq_some_iff.1 h
  obtain ⟨vs, hvs, h⟩ := Option.bind_eq_some_iff.1 h
  cases h
  exact ⟨v, vs, hv, hvs, rfl⟩

theorem respellMembers_cons {k : String} {x : Value} {ms ns : List (String × Value)}
    (h : respellMembers ((k, x) :: ms) = some ns) :
    ∃ v vs, respell x = some v ∧ respellMembers ms = some vs ∧ ns = (k, v) :: vs := by
  obtain ⟨v, hv, h⟩ := Option.bind_eq_some_iff.1 h
  obtain ⟨vs, hvs, h⟩ := Option.bind_eq_some_iff.1 h
  cases h
  exact ⟨v, vs, hv, hvs, rfl⟩

mutual

theorem respell_of_numberless : ∀ {v : Value}, v.Numberless → respell v = some v
  | .null, _ | .bool _, _ | .string _, _ => rfl
  | .int _, h | .float _, h => by cases h
  | .list xs, .list h => by rw [respell, respellItems_of_numberless h, Option.map_some]
  | .object ms, .object h => by rw [respell, respellMembers_of_numberless h, Option.map_some]

theorem respellItems_of_numberless : ∀ {xs : List Value}, (∀ x ∈ xs, x.Numberless) →
    respellItems xs = some xs
  | [], _ => rfl
  | x :: xs, h => by
    obtain ⟨hx, h⟩ := List.forall_mem_cons.1 h
    rw [respellItems, respell_of_numberless hx, respellItems_of_numberless h]
    rfl

theorem respellMembers_of_numberless : ∀ {ms : List (String × Value)},
    (∀ e ∈ ms, e.2.Numberless) → respellMembers ms = some ms
  | [], _ => rfl
  | (k, x) :: ms, h => by
    obtain ⟨hx, h⟩ := List.forall_mem_cons.1 h
    rw [respellMembers, respell_of_numberless hx, respellMembers_of_numberless h]
    rfl

end

/-! ## The lexer -/

variable {found : List Token} {rest : List Char}

theorem hexValue_hex : ∀ n < 16, hexValue (escape.hex n) = some n := by decide

theorem hexValue_lead : ∀ n < 32, hexValue (if n < 0x10 then '0' else '1') = some (n / 16) := by
  decide

theorem lexFrom_control (read : List Char) {n : Nat} (hn : n < 0x20) :
    lexFrom (.text read) found (['\\', 'u', '0', '0', if n < 0x10 then '0' else '1',
      escape.hex (n % 16)] ++ rest) = lexFrom (.text (Char.ofNat n :: read)) found rest := by
  change lexFrom (.unit read none 2 0) found
    ((if n < 0x10 then '0' else '1') :: escape.hex (n % 16) :: rest) = _
  have hlead : (Mode.unit read none 2 0).step (if n < 0x10 then '0' else '1')
      = some ([], .unit read none 3 (n / 16)) := by
    simp [Mode.step, hexValue_lead n hn]
  have hvalue : 16 * (n / 16) + n % 16 = n := Nat.div_add_mod n 16
  have hlast : (Mode.unit read none 3 (n / 16)).step (escape.hex (n % 16))
      = some ([], .text (Char.ofNat n :: read)) := by
    have hlow : ¬ (0xD800 ≤ n ∧ n < 0xDC00) ∧ ¬ (0xDC00 ≤ n ∧ n < 0xE000) := by omega
    simp [Mode.step, hexValue_hex (n % 16) (Nat.mod_lt n (by decide)), hvalue, unitDone, hlow]
  rw [lexFrom, hlead]
  dsimp only
  rw [lexFrom, hlast]
  rfl

theorem lexFrom_escape (read : List Char) (c : Char) :
    lexFrom (.text read) found (escape c ++ rest) = lexFrom (.text (c :: read)) found rest := by
  unfold escape
  split
  case h_8 hquote hback _ _ _ _ _ =>
    split
    · rename_i hn
      rw [lexFrom_control read hn, Char.ofNat_toNat]
    · rename_i hn
      have hstep : (Mode.text read).step c = some ([], .text (c :: read)) := by
        simp only [Mode.step, if_neg hquote, if_neg hback, if_neg hn]
      rw [List.singleton_append, lexFrom, hstep]
      rfl
  all_goals rfl

theorem lexFrom_escapes (read cs : List Char) :
    lexFrom (.text read) found (cs.flatMap escape ++ rest)
      = lexFrom (.text (cs.reverse ++ read)) found rest := by
  induction cs generalizing read with
  | nil => rfl
  | cons c cs ih =>
    rw [List.flatMap_cons, List.append_assoc, lexFrom_escape, ih, List.reverse_cons,
      List.append_assoc]
    rfl

theorem lexFrom_text (s : String) : lexFrom .between found ((text s).toList ++ rest)
    = lexFrom .between (.atom (.string s) :: found) rest := by
  unfold text
  simp only [String.toList_ofList, List.cons_append, List.append_assoc, List.nil_append]
  change lexFrom (.text []) found (s.toList.flatMap escape ++ '"' :: rest) = _
  rw [lexFrom_escapes, List.append_nil]
  change lexFrom .between (.atom (.string (String.ofList s.toList.reverse.reverse)) :: found) rest
    = _
  rw [List.reverse_reverse, String.ofList_toList]

theorem lexFrom_spaces (n : Nat) :
    lexFrom .between found (List.replicate n ' ' ++ rest) = lexFrom .between found rest := by
  induction n with
  | zero => rfl
  | succ n ih => exact ih

theorem lexFrom_newLine (depth : Nat) :
    lexFrom .between found ((newLine depth).toList ++ rest) = lexFrom .between found rest := by
  unfold newLine
  simp only [String.toList_append, String.toList_ofList, List.append_assoc]
  exact lexFrom_spaces (2 * depth)

/-- Nothing that could go on with a word or a number comes first. -/
def Delimited (cs : List Char) : Prop :=
  ∀ c ∈ cs.head?, c.isAlpha = false ∧ isNumeral c = false

theorem lexFrom_word {cs : List Char} {m : Scalar} (hw : wordMeaning cs.reverse = some m)
    (hrest : Delimited rest) :
    lexFrom (.word cs) found rest = lexFrom .between (.atom m :: found) rest := by
  rcases rest with _ | ⟨c, rest⟩
  · simp [lexFrom, Mode.finish, hw]
  · have hc : c.isAlpha = false := (hrest c rfl).1
    simp only [lexFrom, Mode.step, hc, closing, hw]
    rcases begin c with _ | ⟨ts, mode⟩
    · rfl
    · simp

theorem lexFrom_number (cs : List Char) (hrest : Delimited rest) :
    lexFrom (.number cs) found rest
      = (spelt cs.reverse).bind fun m => lexFrom .between (.atom m :: found) rest := by
  rcases rest with _ | ⟨c, rest⟩
  · rw [lexFrom, Mode.finish, ← spelt]
    rcases spelt cs.reverse with _ | m
    · rfl
    · simp [lexFrom, Mode.finish]
  · have hstep : (Mode.number cs).step c = closing (spelt cs.reverse) c :=
      if_neg (by simp [(hrest c rfl).2])
    have hbetween : Mode.between.step c = begin c := rfl
    simp only [lexFrom, hstep, hbetween, closing]
    rcases spelt cs.reverse with _ | m
    · rfl
    · rcases begin c with _ | ⟨ts, mode⟩
      · rfl
      · simp

theorem begin_number {c : Char} (h : (c.isDigit || c == '-') = true) :
    begin c = some ([], .number [c]) := by
  unfold begin
  split
  case h_8 =>
    have hspace : isSpace c = false := by
      refine Bool.eq_false_iff.2 fun hs => ?_
      simp only [isSpace, Bool.or_eq_true, beq_iff_eq] at hs
      rcases hs with ((rfl | rfl) | rfl) | rfl <;> cases h
    rw [if_neg (by simp [hspace]), if_pos h]
  all_goals cases h

/-- What is written like a number is read as what its numeral means. -/
theorem lexFrom_numerical {cs : List Char} (h : Numerical cs) (hrest : Delimited rest) :
    lexFrom .between found (cs ++ rest)
      = (spelt cs).bind fun m => lexFrom .between (.atom m :: found) rest := by
  have hnumber : ∀ cs read : List Char, (∀ c ∈ cs, isNumeral c = true) →
      lexFrom (.number read) found (cs ++ rest)
        = lexFrom (.number (cs.reverse ++ read)) found rest := by
    intro cs
    induction cs with
    | nil => exact fun _ _ => rfl
    | cons c cs ih =>
      intro read hcs
      obtain ⟨hc, hcs⟩ := List.forall_mem_cons.1 hcs
      have hstep : (Mode.number read).step c = some ([], .number (c :: read)) := if_pos hc
      rw [List.cons_append, lexFrom, hstep]
      refine (ih (c :: read) hcs).trans ?_
      rw [List.reverse_cons, List.append_assoc]
      rfl
  obtain ⟨c, hhead, hc⟩ := h.head
  obtain ⟨cs, rfl⟩ : ∃ tail, cs = c :: tail := by
    rcases cs with _ | ⟨d, tail⟩
    · cases hhead
    · cases hhead
      exact ⟨tail, rfl⟩
  have hbegin : Mode.between.step c = some ([], .number [c]) := begin_number hc
  rw [List.cons_append, lexFrom, hbegin]
  refine (hnumber cs [c] fun d hd => h.all d (List.mem_cons_of_mem c hd)).trans ?_
  rw [lexFrom_number _ hrest, List.reverse_append, List.reverse_reverse]
  rfl

theorem delimited_cons {c : Char} {cs : List Char} (h : c.isAlpha = false ∧ isNumeral c = false) :
    Delimited (c :: cs) := by
  rintro _ ⟨⟩
  exact h

theorem delimited_newLine (depth : Nat) (cs : List Char) :
    Delimited ((newLine depth).toList ++ cs) := by
  unfold newLine
  rw [String.toList_append]
  exact delimited_cons ⟨rfl, rfl⟩

theorem lexFrom_spelt {cs : List Char} (h : Numerical cs) (hrest : Delimited rest) :
    lexFrom .between found (cs ++ rest) = ((spelt cs).map ofScalar).bind fun w =>
      lexFrom .between ((tokens w).reverse ++ found) rest := by
  rw [lexFrom_numerical h hrest]
  rcases spelt cs with _ | m
  · rfl
  · rw [Option.map_some, Option.bind_some, Option.bind_some, tokens_ofScalar]
    rfl

mutual

theorem lexFrom_prettyAt : ∀ (v : Value) (depth : Nat) (found : List Token) (rest : List Char),
    Delimited rest → lexFrom .between found ((prettyAt depth v).toList ++ rest)
      = (respell v).bind fun w => lexFrom .between ((tokens w).reverse ++ found) rest
  | .null, depth, found, rest, hrest => by
    simp only [prettyAt, atom, respell, Option.bind_some, tokens, scalarOf]
    exact lexFrom_word rfl hrest
  | .bool b, depth, found, rest, hrest => by
    simp only [prettyAt, atom, respell, Option.bind_some, tokens, scalarOf]
    rcases b with _ | _
    · exact lexFrom_word rfl hrest
    · exact lexFrom_word rfl hrest
  | .int i, depth, found, rest, hrest => by
    simp only [prettyAt, atom, respell]
    exact lexFrom_spelt (numerical_ofInt i) hrest
  | .float x, depth, found, rest, hrest => by
    simp only [prettyAt, atom, respell]
    split
    · rename_i hx
      exact lexFrom_spelt (numerical_float hx) hrest
    · rename_i hx
      rcases x with _ | _ | _
      · exact absurd rfl hx
      · change lexFrom .between found ("null".toList ++ rest) = _
        exact lexFrom_word rfl hrest
      · change lexFrom .between found ("null".toList ++ rest) = _
        exact lexFrom_word rfl hrest
  | .string s, depth, found, rest, _ => by
    simp only [prettyAt, atom, respell, Option.bind_some, tokens, scalarOf]
    exact lexFrom_text s
  | .list [], depth, found, rest, _ => by
    simp only [prettyAt, atom, respell, respellItems, Option.map_some, Option.bind_some, tokens,
      tokensOfItems]
    rfl
  | .list (x :: xs), depth, found, rest, _ => by
    -- The line break before the bracket ends whatever number stands last.
    have hitems := lexFrom_prettyItems (x :: xs) (depth + 1) (.openList :: found)
      ((newLine depth).toList ++ ']' :: rest) (delimited_newLine depth _)
    simp only [prettyAt, respell, String.toList_append, List.append_assoc]
    change lexFrom .between (.openList :: found) ((newLine (depth + 1)).toList
      ++ ((prettyItems (depth + 1) (x :: xs)).toList ++ ((newLine depth).toList ++ ']' :: rest)))
        = _
    rw [lexFrom_newLine, hitems]
    rcases respellItems (x :: xs) with _ | ys
    · rfl
    · simp only [Option.map_some, Option.bind_some, tokens, lexFrom_newLine]
      simp [lexFrom, Mode.step, begin]
  | .object [], depth, found, rest, _ => by
    simp only [prettyAt, atom, respell, respellMembers, Option.map_some, Option.bind_some, tokens,
      tokensOfMembers]
    rfl
  | .object ((k, v) :: ms), depth, found, rest, _ => by
    have hmembers := lexFrom_prettyMembers ((k, v) :: ms) (depth + 1) (.openObject :: found)
      ((newLine depth).toList ++ '\x7d' :: rest) (delimited_newLine depth _)
    simp only [prettyAt, respell, String.toList_append, List.append_assoc]
    change lexFrom .between (.openObject :: found) ((newLine (depth + 1)).toList
      ++ ((prettyMembers (depth + 1) ((k, v) :: ms)).toList
      ++ ((newLine depth).toList ++ '\x7d' :: rest))) = _
    rw [lexFrom_newLine, hmembers]
    rcases respellMembers ((k, v) :: ms) with _ | ns
    · rfl
    · simp only [Option.map_some, Option.bind_some, tokens, lexFrom_newLine]
      simp [lexFrom, Mode.step, begin]

theorem lexFrom_prettyItems : ∀ (xs : List Value) (depth : Nat) (found : List Token)
    (rest : List Char), Delimited rest →
      lexFrom .between found ((prettyItems depth xs).toList ++ rest)
        = (respellItems xs).bind fun ys =>
          lexFrom .between ((tokensOfItems ys).reverse ++ found) rest
  | [], _, _, _, _ => rfl
  | [x], depth, found, rest, hrest => by
    rw [prettyItems, lexFrom_prettyAt x depth found rest hrest, respellItems]
    rcases respell x with _ | w
    · rfl
    · rfl
  | x :: y :: ys, depth, found, rest, hrest => by
    have hfirst := lexFrom_prettyAt x depth found
      (',' :: ((newLine depth).toList ++ ((prettyItems depth (y :: ys)).toList ++ rest)))
      (delimited_cons ⟨rfl, rfl⟩)
    simp only [prettyItems, String.toList_append, List.append_assoc]
    refine hfirst.trans ?_
    rw [respellItems]
    rcases respell x with _ | w
    · rfl
    have hitems := lexFrom_prettyItems (y :: ys) depth
      (.comma :: ((tokens w).reverse ++ found)) rest hrest
    change lexFrom .between (.comma :: ((tokens w).reverse ++ found))
      ((newLine depth).toList ++ ((prettyItems depth (y :: ys)).toList ++ rest)) = _
    rw [lexFrom_newLine, hitems]
    rcases hys : respellItems (y :: ys) with _ | ws
    · rfl
    -- Only where there is a further item does a comma stand between the tokens.
    · obtain ⟨u, us, -, -, rfl⟩ := respellItems_cons hys
      simp [tokensOfItems]

theorem lexFrom_prettyMembers : ∀ (ms : List (String × Value)) (depth : Nat) (found : List Token)
    (rest : List Char), Delimited rest →
      lexFrom .between found ((prettyMembers depth ms).toList ++ rest)
        = (respellMembers ms).bind fun ns =>
          lexFrom .between ((tokensOfMembers ns).reverse ++ found) rest
  | [], _, _, _, _ => rfl
  | [(k, v)], depth, found, rest, hrest => by
    have hv := lexFrom_prettyAt v depth (.colon :: .atom (.string k) :: found) rest hrest
    simp only [prettyMembers, String.toList_append, List.append_assoc]
    rw [lexFrom_text, respellMembers]
    refine Eq.trans ?_ (hv.trans ?_)
    · rfl
    · rcases respell v with _ | w
      · rfl
      · simp [respellMembers, tokensOfMembers]
  | (k, v) :: m :: ms, depth, found, rest, hrest => by
    have hfirst := lexFrom_prettyAt v depth (.colon :: .atom (.string k) :: found)
      (',' :: ((newLine depth).toList ++ ((prettyMembers depth (m :: ms)).toList ++ rest)))
      (delimited_cons ⟨rfl, rfl⟩)
    simp only [prettyMembers, String.toList_append, List.append_assoc]
    rw [lexFrom_text, respellMembers]
    refine Eq.trans ?_ (hfirst.trans ?_)
    · rfl
    rcases respell v with _ | w
    · rfl
    have hmembers := lexFrom_prettyMembers (m :: ms) depth
      (.comma :: ((tokens w).reverse ++ .colon :: .atom (.string k) :: found)) rest hrest
    change lexFrom .between (.comma :: ((tokens w).reverse ++ .colon :: .atom (.string k) :: found))
      ((newLine depth).toList ++ ((prettyMembers depth (m :: ms)).toList ++ rest)) = _
    rw [lexFrom_newLine, hmembers]
    rcases hns : respellMembers (m :: ms) with _ | ns
    · rfl
    · obtain ⟨u, us, -, -, rfl⟩ := respellMembers_cons hns
      simp [tokensOfMembers]

end

theorem lex_pretty (v : Value) : lex (pretty v) = (respell v).map tokens := by
  have hlex := lexFrom_prettyAt v 0 [] [] fun _ hc => nomatch hc
  rw [List.append_nil] at hlex
  rw [lex, pretty, hlex]
  rcases respell v with _ | w
  · rfl
  · simp [lexFrom, Mode.finish]

end Json

end Provision
