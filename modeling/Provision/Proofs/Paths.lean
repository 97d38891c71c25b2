import Mathlib.Data.List.DropRight
import Provision.Http.Url

/-!
# What is added to an address

An address is read as one text, so what is added at its end may change more than the end of its
path. What is added after a slash is still read on its own (`segments_of_added`): it is cut at the
first question mark or number sign, split at its slashes, and written in segments after those that
were there before, unless some of it names the enclosing folder (`path_eq_iff_of_added`).

Different names are written differently as long as no percent sign stands in them
(`encode_injective`): otherwise one may be what the other is written as.
-/

namespace Provision

namespace Url

/-! ## What is left of a text -/

/-- The character is dropped at both ends of an address. -/
def isLoose (c : Char) : Bool := c.toNat ≤ 0x20

/-- The character is dropped nowhere but at the ends of an address. -/
def isKept (c : Char) : Bool := c != '\t' && c != '\n' && c != '\r'

/-- The character does not end the path of an address. -/
def inPath (c : Char) : Bool := c != '?' && c != '#'

/-- A path as it is cut from what has been added after a slash. -/
def added (cs : List Char) : List Char := (clean ('/' :: cs)).takeWhile inPath

/-- The segments of a path as they are written, before its dots are resolved. -/
def written (cs : List Char) : List String := (cs.tail.splitOnP isSlash).map (encode reservedInPath)

variable {p : Char → Bool} {c : Char} {cs xs ys : List Char}

theorem isKept_of_not_isLoose (h : isLoose c = false) : isKept c = true := by
  simp only [isKept, Bool.and_eq_true, bne_iff_ne]
  refine ⟨⟨?_, ?_⟩, ?_⟩
  all_goals
    rintro rfl
    exact absurd h (by decide)

theorem dropWhile_append_cons (h : p c = false) :
    (xs ++ c :: ys).dropWhile p = xs.dropWhile p ++ c :: ys := by
  rw [List.dropWhile_append]
  split_ifs with hall
  · rw [List.isEmpty_iff.1 hall, List.dropWhile_cons_of_neg (by simp [h]), List.nil_append]
  · rfl

theorem takeWhile_append_cons (h : p c = false) :
    (xs ++ c :: ys).takeWhile p = xs.takeWhile p := by
  rw [List.takeWhile_append]
  split_ifs with hall
  · rw [List.takeWhile_cons_of_neg (by simp [h]), List.append_nil]
    exact (List.takeWhile_prefix p).eq_of_length hall |>.symm
  · rfl

/-- A character that is not loose keeps what stands on one side of it from what is dropped on the
other. -/
theorem clean_append_cons (h : isLoose c = false) : clean (xs ++ c :: ys)
    = (xs.dropWhile isLoose).filter isKept ++ c :: (ys.rdropWhile isLoose).filter isKept := by
  show ((((xs ++ c :: ys).dropWhile isLoose).reverse.dropWhile isLoose).reverse).filter isKept = _
  rw [dropWhile_append_cons h, List.reverse_append, List.reverse_cons, List.append_assoc,
    List.singleton_append, dropWhile_append_cons h, List.reverse_append, List.reverse_cons,
    List.reverse_reverse, List.append_assoc, List.singleton_append, List.filter_append,
    List.filter_cons_of_pos (isKept_of_not_isLoose h), List.rdropWhile]

theorem clean_cons (h : isLoose c = false) :
    clean (c :: ys) = c :: (ys.rdropWhile isLoose).filter isKept := by
  rw [← List.nil_append (c :: ys), clean_append_cons h]
  rfl

theorem clean_append (h : isLoose c = false) :
    clean (xs ++ c :: ys) = (xs.dropWhile isLoose).filter isKept ++ clean (c :: ys) := by
  rw [clean_append_cons h, clean_cons h]

theorem clean_cons_cons {c' : Char} (h : isLoose c = false) (h' : isLoose c' = false) :
    clean (c :: c' :: ys) = c :: clean (c' :: ys) := by
  have hc : ([c].dropWhile isLoose).filter isKept = [c] := by
    simp [h, isKept_of_not_isLoose h]
  rw [← List.singleton_append, clean_append h', hc, List.singleton_append]

/-! ## What an address is read as -/

theorem scheme?_append_cons :
    scheme? (xs ++ '/' :: ys) = (scheme? xs).map fun e => (e.1, e.2 ++ '/' :: ys) := by
  rcases xs with _ | ⟨x, xs⟩
  · rfl
  unfold scheme?
  dsimp only [List.cons_append, List.head?_cons]
  rw [← List.cons_append, takeWhile_append_cons (by decide),
    List.drop_append_of_le_length (List.takeWhile_prefix _).length_le]
  rcases (x :: xs).drop _ with _ | ⟨c, rest⟩
  · rfl
  · by_cases hc : c = ':'
    · subst hc
      dsimp only [List.cons_append]
      split_ifs
      · rfl
      · rfl
    · rw [List.cons_append]
      split
      · rename_i heq
        exact absurd (List.cons.inj heq).1 hc
      · split
        · rename_i heq
          exact absurd (List.cons.inj heq).1 hc
        · rfl

/-- The rest of an address begins behind the first colon. -/
theorem of_scheme? {scheme : String} {rest : List Char} (h : scheme? cs = some (scheme, rest)) :
    ∃ name, cs = name ++ ':' :: rest := by
  unfold scheme? at h
  split at h
  · cases h
  · dsimp only at h
    split at h
    · rename_i hdrop
      split_ifs at h
      cases h
      exact ⟨_, ((List.take_append_drop _ _).symm.trans (congrArg _ hdrop))⟩
    · cases h

/-- The path of an address is read from what is left of its text behind the server. -/
theorem of_ofText? {text : String} {u : Url} (h : ofText? text = some u) :
    ∃ scheme rest, scheme? (clean text.toList) = some (scheme, rest)
      ∧ u.segments = segmentsOf (((rest.dropWhile isSlash).dropWhile
          fun c => !(isSlash c || c == '?' || c == '#')).takeWhile inPath) := by
  simp only [ofText?, Option.bind_eq_bind, Option.bind_eq_some_iff] at h
  obtain ⟨⟨scheme, rest⟩, hscheme, implied, -, ⟨host, port⟩, -, h⟩ := h
  cases h
  exact ⟨scheme, rest, hscheme, rfl⟩

theorem written_append_cons (v : List Char) :
    ∃ base, ∀ cs, written (v ++ '/' :: cs) = base ++ written ('/' :: cs) := by
  rcases v with _ | ⟨c, v⟩
  · exact ⟨[], fun cs => rfl⟩
  · refine ⟨(v.splitOnP isSlash).map (encode reservedInPath), fun cs => ?_⟩
    rw [written, List.cons_append, List.tail_cons, List.splitOnP_append_cons _ _ (by decide),
      List.map_append]
    rfl

/-- What is added to an address after a slash is read on its own, and its segments are written
after those that were there before. -/
theorem segments_of_added {init : List Char} {l : Char} (hloose : isLoose l = false)
    (hslash : isSlash l = false) (hcolon : l ≠ ':') (hpath : ∀ c ∈ init ++ [l], inPath c = true) :
    ∃ base, ∀ cs u, ofText? (String.ofList (init ++ l :: '/' :: cs)) = some u →
      u.segments = resolve [] (base ++ written (added cs)) := by
  set start := (init.dropWhile isLoose).filter isKept ++ [l] with hstart
  have hclean (cs : List Char) : clean (init ++ l :: '/' :: cs)
      = start ++ '/' :: (cs.rdropWhile isLoose).filter isKept := by
    rw [clean_append hloose, clean_cons_cons hloose (by decide), clean_cons (by decide), hstart,
      List.append_assoc, List.singleton_append]
  rcases hscheme : scheme? start with _ | ⟨scheme, rest⟩
  -- Without a scheme there is no address, whatever is added.
  · refine ⟨[], fun cs u hu => ?_⟩
    obtain ⟨scheme, rest, hrest, -⟩ := of_ofText? hu
    rw [String.toList_ofList, hclean, scheme?_append_cons, hscheme] at hrest
    cases hrest
  obtain ⟨name, hname⟩ := of_scheme? hscheme
  obtain ⟨behind, rfl⟩ : ∃ behind, rest = behind ++ [l] := by
    rcases List.eq_nil_or_concat rest with rfl | ⟨behind, l', rfl⟩
    · exact absurd (List.singleton_inj.1 (List.append_inj' hname rfl).2) hcolon
    · rw [List.concat_eq_append] at hname ⊢
      rw [hstart, ← List.cons_append, ← List.append_assoc] at hname
      exact ⟨behind, congrArg (behind ++ ·) (List.append_inj' hname rfl).2.symm⟩
  set v := (behind.dropWhile isSlash ++ [l]).dropWhile fun c => !(isSlash c || c == '?' || c == '#')
    with hv
  obtain ⟨base, hbase⟩ := written_append_cons v
  refine ⟨base, fun cs u hu => ?_⟩
  obtain ⟨scheme', rest, hrest, hsegments⟩ := of_ofText? hu
  rw [String.toList_ofList, hclean, scheme?_append_cons, hscheme] at hrest
  cases hrest
  have hinPath : ∀ c ∈ v, inPath c = true := by
    intro c hc
    refine hpath c ?_
    rcases List.mem_append.1 ((List.dropWhile_sublist _).mem hc) with hc | hc
    · have hstarted : c ∈ start := by
        rw [hname]
        simp [(List.dropWhile_sublist _).mem hc]
      rw [hstart] at hstarted
      rcases List.mem_append.1 hstarted with hc | hc
      · exact List.mem_append_left _ ((List.dropWhile_sublist _).mem (List.mem_filter.1 hc).1)
      · exact List.mem_append_right _ hc
    · exact List.mem_append_right _ hc
  rw [hsegments, List.append_assoc, List.singleton_append, dropWhile_append_cons hslash,
    ← List.singleton_append, ← List.append_assoc, dropWhile_append_cons (by decide), ← hv,
    List.takeWhile_append_of_pos hinPath, added, clean_cons (by decide),
    List.takeWhile_cons_of_pos (by decide), ← hbase]
  rfl

/-- What is not dropped and does not end the path is all read. -/
theorem added_eq_self (h : ∀ c ∈ cs, inPath c = true ∧ isKept c = true)
    (hlast : ∀ c, cs.getLast? = some c → isLoose c = false) : added cs = '/' :: cs := by
  have hloose : cs.rdropWhile isLoose = cs := by
    refine List.rdropWhile_eq_self_iff.2 fun hne => ?_
    rw [hlast _ (List.getLast?_eq_some_getLast hne)]
    exact Bool.false_ne_true
  rw [added, clean_cons (by decide), hloose, List.filter_eq_self.2 fun c hc => (h c hc).2,
    List.takeWhile_eq_self_iff]
  exact List.forall_mem_cons.2 ⟨by decide, fun c hc => (h c hc).1⟩

/-- What follows a question mark is no part of the path. -/
theorem added_append_query (hlast : xs.getLast? = some c) (h : isLoose c = false) :
    added (xs ++ '?' :: ys) = added xs := by
  obtain ⟨xs, rfl⟩ := List.getLast?_eq_some_iff.1 hlast
  have hclean : clean ('/' :: xs ++ c :: '?' :: ys)
      = clean ('/' :: xs ++ [c]) ++ '?' :: (ys.rdropWhile isLoose).filter isKept := by
    rw [clean_append h, clean_append h, clean_cons_cons h (by decide), clean_cons (by decide),
      clean_cons h, List.append_assoc]
    rfl
  rw [added, added, List.append_assoc, List.singleton_append, ← List.cons_append,
    ← List.cons_append, hclean, takeWhile_append_cons (by decide)]

theorem written_of_not_isSlash (h : ∀ c ∈ cs, isSlash c = false) :
    written ('/' :: cs) = [encode reservedInPath cs] := by
  rw [written, List.tail_cons, List.splitOnP_eq_singleton fun c hc => by simp [h c hc]]
  rfl

theorem written_cons_of_not_isSlash (h : ∀ c ∈ xs, isSlash c = false) :
    written ('/' :: (xs ++ '/' :: ys)) = encode reservedInPath xs :: written ('/' :: ys) := by
  rw [written, List.tail_cons, List.splitOnP_append_cons _ _ (by decide),
    List.splitOnP_eq_singleton fun c hc => by simp [h c hc]]
  rfl

/-! ## Dots -/

theorem resolve_cons {s : String} {ss done : List String} (hss : ss ≠ []) :
    resolve done (s :: ss) = if isDoubleDot s then resolve done.tail ss
      else if isDot s then resolve done ss else resolve (s :: done) ss := by
  rcases ss with _ | ⟨t, ss⟩
  · exact absurd rfl hss
  · rw [resolve]
    exact List.cons_ne_nil t ss

/-- The dots in front are resolved whatever follows. -/
theorem exists_resolve_append : ∀ ss done : List String,
    ∃ done', ∀ ts, ts ≠ [] → resolve done (ss ++ ts) = resolve done' ts
  | [], done => ⟨done, fun _ _ => rfl⟩
  | s :: ss, done => by
    obtain ⟨above, habove⟩ := exists_resolve_append ss done.tail
    obtain ⟨here, hhere⟩ := exists_resolve_append ss done
    obtain ⟨below, hbelow⟩ := exists_resolve_append ss (s :: done)
    refine ⟨if isDoubleDot s then above else if isDot s then here else below, fun ts hts => ?_⟩
    rw [List.cons_append, resolve_cons (List.append_ne_nil_of_right_ne_nil _ hts), habove ts hts,
      hhere ts hts, hbelow ts hts]
    split_ifs <;> rfl

/-- Unless some of it names the enclosing folder, a path stays where it is added. -/
theorem resolve_eq_append : ∀ {ss done : List String}, (∀ s ∈ ss, isDoubleDot s = false) →
    resolve done ss = done.reverse ++ resolve [] ss
  | [], done, _ => by simp [resolve]
  | [s], done, h => by
    have hs := h s List.mem_cons_self
    by_cases hdot : isDot s = true
    · simp [resolve, hs, hdot]
    · simp [resolve, hs, hdot]
  | s :: t :: ss, done, h => by
    have hs := h s List.mem_cons_self
    have hts : ∀ x ∈ t :: ss, isDoubleDot x = false := fun x hx => h x (List.mem_cons_of_mem _ hx)
    have hcons (done : List String) : resolve done (s :: t :: ss)
        = if isDot s then resolve done (t :: ss) else resolve (s :: done) (t :: ss) := by
      rw [resolve_cons (List.cons_ne_nil t ss), hs]
      rfl
    have hone : resolve [s] (t :: ss) = [s] ++ resolve [] (t :: ss) := resolve_eq_append hts
    rw [hcons, hcons]
    split_ifs
    · exact resolve_eq_append hts
    · rw [resolve_eq_append hts, hone, List.reverse_cons, List.append_assoc]

/-- A path without dots is as it is written. -/
theorem resolve_eq_self : ∀ {ss : List String},
    (∀ s ∈ ss, isDot s = false ∧ isDoubleDot s = false) → resolve [] ss = ss
  | [], _ => rfl
  | [s], h => by
    obtain ⟨hdot, hdouble⟩ := h s List.mem_cons_self
    simp [resolve, hdot, hdouble]
  | s :: t :: ss, h => by
    obtain ⟨⟨hdot, hdouble⟩, h⟩ := List.forall_mem_cons.1 h
    have hone : resolve [s] (t :: ss) = [s] ++ resolve [] (t :: ss) :=
      resolve_eq_append fun x hx => (h x hx).2
    rw [resolve_cons (List.cons_ne_nil t ss), hdouble, hdot]
    exact hone.trans (congrArg _ (resolve_eq_self h))

theorem mem_resolve {s : String} : ∀ {ss done : List String}, s ∈ resolve done ss →
    s = "" ∨ s ∈ done ∨ s ∈ ss
  | [], done, h => by
    rw [resolve, List.mem_reverse] at h
    exact .inr (.inl h)
  | [t], done, h => by
    rw [resolve] at h
    split_ifs at h <;> simp only [List.mem_reverse, List.mem_cons] at h
    · exact h.imp_right fun h => .inl (List.mem_of_mem_tail h)
    · exact h.imp_right .inl
    · exact .inr (h.symm.imp_right fun h => List.mem_singleton.2 h)
  | t :: t' :: ss, done, h => by
    rw [resolve_cons (by simp)] at h
    split_ifs at h
    · exact (mem_resolve h).imp_right fun h =>
        h.imp List.mem_of_mem_tail (List.mem_cons_of_mem _)
    · exact (mem_resolve h).imp_right fun h => h.imp_right (List.mem_cons_of_mem _)
    · rcases mem_resolve h with h | h | h
      · exact .inl h
      · exact (List.mem_cons.1 h).elim (fun h => .inr (.inr (h ▸ List.mem_cons_self)))
          fun h => .inr (.inl h)
      · exact .inr (.inr (List.mem_cons_of_mem _ h))

/-! ## Segments -/

theorem not_isSlash_of_mem_splitOnP : ∀ {cs part : List Char}, part ∈ cs.splitOnP isSlash →
    ∀ c ∈ part, isSlash c = false
  | [], part, h => by
    rw [List.splitOnP_nil, List.mem_singleton] at h
    simp [h]
  | c :: cs, part, h => by
    rw [List.splitOnP_cons_eq_if_modifyHead] at h
    split_ifs at h with hc
    · rcases List.mem_cons.1 h with rfl | h
      · simp
      · exact not_isSlash_of_mem_splitOnP h
    · obtain ⟨first, rest, hsplit⟩ := List.exists_cons_of_ne_nil (List.splitOnP_ne_nil isSlash cs)
      have hall : ∀ part ∈ first :: rest, ∀ c ∈ part, isSlash c = false :=
        fun part hpart => not_isSlash_of_mem_splitOnP (hsplit ▸ hpart)
      rw [hsplit, List.modifyHead_cons] at h
      rcases List.mem_cons.1 h with rfl | h
      · exact List.forall_mem_cons.2 ⟨by simpa using hc, hall first List.mem_cons_self⟩
      · exact hall part (List.mem_cons_of_mem _ h)

theorem hexDigit_ne_slash : ∀ n < 16, hexDigit n ≠ '/' := by decide

theorem not_mem_encode {reserved : Char → Bool} (h : '/' ∉ cs) :
    '/' ∉ (encode reserved cs).toList := by
  rw [encode, String.toList_ofList, List.mem_flatMap]
  rintro ⟨c, hc, hslash⟩
  unfold encodeChar at hslash
  split_ifs at hslash
  · obtain ⟨b, -, hb⟩ := List.mem_flatMap.1 hslash
    have hlt : b.toNat < 256 := b.toNat_lt
    simp only [percent, List.mem_cons, List.not_mem_nil, or_false] at hb
    rcases hb with hb | hb | hb
    · exact absurd hb (by decide)
    · exact hexDigit_ne_slash _ (by omega) hb.symm
    · exact hexDigit_ne_slash _ (by omega) hb.symm
  · exact h (List.mem_singleton.1 hslash ▸ hc)

/-- No slash stands in a segment. -/
theorem not_mem_segments {text : String} {u : Url} (h : ofText? text = some u) :
    ∀ s ∈ u.segments, '/' ∉ s.toList := by
  obtain ⟨-, rest, -, hsegments⟩ := of_ofText? h
  intro s hs
  rw [hsegments, segmentsOf] at hs
  rcases mem_resolve hs with rfl | hs | hs
  · simp
  · cases hs
  · obtain ⟨part, hpart, rfl⟩ := List.mem_map.1 hs
    refine not_mem_encode fun hslash => ?_
    exact absurd (not_isSlash_of_mem_splitOnP hpart _ hslash) (by decide)

theorem eq_of_flatMap_eq : ∀ {ss ts : List String}, (∀ s ∈ ss, '/' ∉ s.toList) →
    (∀ t ∈ ts, '/' ∉ t.toList) →
    (ss.flatMap fun s => '/' :: s.toList) = (ts.flatMap fun t => '/' :: t.toList) → ss = ts
  | [], [], _, _, _ => rfl
  | [], t :: ts, _, _, h => by simp at h
  | s :: ss, [], _, _, h => by simp at h
  | s :: ss, t :: ts, hs, ht, h => by
    obtain ⟨hs, hss⟩ := List.forall_mem_cons.1 hs
    obtain ⟨ht, hts⟩ := List.forall_mem_cons.1 ht
    -- A segment is what stands before the next slash.
    have htake {x : String} {xs : List String} (hx : '/' ∉ x.toList) :
        (x.toList ++ xs.flatMap fun x => '/' :: x.toList).takeWhile (· != '/') = x.toList := by
      rw [List.takeWhile_append_of_pos fun c hc => by
        simp only [bne_iff_ne]
        rintro rfl
        exact hx hc]
      rcases xs with _ | ⟨x', xs⟩ <;> simp
    rw [List.flatMap_cons, List.flatMap_cons, List.cons_append, List.cons_append] at h
    have htail := (List.cons.inj h).2
    have heq : s.toList = t.toList := by
      calc s.toList = _ := (htake hs).symm
        _ = _ := congrArg _ htail
        _ = t.toList := htake ht
    rw [heq] at htail
    rw [String.toList_inj.1 heq, eq_of_flatMap_eq hss hts (List.append_cancel_left htail)]

theorem path_toList (u : Url) : u.path.toList = u.segments.flatMap fun s => '/' :: s.toList := by
  rw [path, String.toList_join, List.flatMap_map]
  simp

/-- Addresses with the same path have the same segments. -/
theorem path_eq_iff {text text' : String} {u u' : Url} (h : ofText? text = some u)
    (h' : ofText? text' = some u') : u.path = u'.path ↔ u.segments = u'.segments := by
  rw [← String.toList_inj, path_toList, path_toList]
  refine ⟨eq_of_flatMap_eq (not_mem_segments h) (not_mem_segments h'), fun heq => ?_⟩
  rw [heq]

/-- What is added to an address after a slash tells paths apart, as far as it is read. -/
theorem path_eq_iff_of_added {init : List Char} {l : Char} (hloose : isLoose l = false)
    (hslash : isSlash l = false) (hcolon : l ≠ ':') (hpath : ∀ c ∈ init ++ [l], inPath c = true)
    {cs cs' : List Char} (hcs : ∀ s ∈ written (added cs), isDoubleDot s = false)
    (hcs' : ∀ s ∈ written (added cs'), isDoubleDot s = false) {u u' : Url}
    (hu : ofText? (String.ofList (init ++ l :: '/' :: cs)) = some u)
    (hu' : ofText? (String.ofList (init ++ l :: '/' :: cs')) = some u') :
    u.path = u'.path ↔ segmentsOf (added cs) = segmentsOf (added cs') := by
  obtain ⟨base, hbase⟩ := segments_of_added hloose hslash hcolon hpath
  obtain ⟨done, hdone⟩ := exists_resolve_append base []
  have hwritten (cs : List Char) : written (added cs) ≠ [] := by
    simp [written, List.splitOnP_ne_nil]
  rw [path_eq_iff hu hu', hbase cs u hu, hbase cs' u' hu', hdone _ (hwritten cs),
    hdone _ (hwritten cs'), resolve_eq_append hcs, resolve_eq_append hcs',
    List.append_cancel_left_eq]
  rfl

/-! ## Percent signs -/

theorem hexValue?_hexDigit : ∀ n < 16, hexValue? (hexDigit n) = some n := by decide

theorem decodeBytes_percent {b : UInt8} : decodeBytes (percent b ++ cs) = b :: decodeBytes cs := by
  have hlt : b.toNat < 256 := b.toNat_lt
  have hb : UInt8.ofNat (16 * (b.toNat / 16) + b.toNat % 16) = b := by
    rw [Nat.div_add_mod, UInt8.ofNat_toNat]
  simp only [percent, List.cons_append, List.nil_append, decodeBytes]
  rw [hexValue?_hexDigit _ (by omega), hexValue?_hexDigit _ (by omega)]
  exact congrArg (· :: decodeBytes cs) hb

theorem decodeBytes_percents : ∀ {bs : List UInt8},
    decodeBytes (bs.flatMap percent ++ cs) = bs ++ decodeBytes cs
  | [] => rfl
  | b :: bs => by
    rw [List.flatMap_cons, List.append_assoc, decodeBytes_percent, decodeBytes_percents,
      List.cons_append]

/-- Without percent signs, a text can be read back from what it is written as. -/
theorem decodeBytes_encode {reserved : Char → Bool} : ∀ {cs : List Char}, '%' ∉ cs →
    decodeBytes (encode reserved cs).toList = cs.flatMap fun c => (String.singleton c).toUTF8.toList
  | [], _ => rfl
  | c :: cs, h => by
    rw [List.mem_cons, not_or] at h
    have ih : decodeBytes (encode reserved cs).toList = _ := decodeBytes_encode h.2
    rw [encode, String.toList_ofList] at ih ⊢
    rw [List.flatMap_cons, List.flatMap_cons, encodeChar]
    split_ifs
    · rw [decodeBytes_percents, ih]
    · rw [List.singleton_append, decodeBytes, ih]
      exact fun _ _ _ hc => absurd hc.symm h.1

theorem toList_loop_eq (bytes : ByteArray) (i : Nat) (done : List UInt8) :
    ByteArray.toList.loop bytes i done = done.reverse ++ bytes.data.toList.drop i := by
  fun_induction ByteArray.toList.loop bytes i done with
  | case1 i done hi ih =>
    have hi' : i < bytes.data.toList.length := by simpa using hi
    have hget : bytes.get! i = bytes.data.toList[i] := by
      show bytes.data[i]! = _
      rw [getElem!_pos bytes.data i hi, Array.getElem_toList]
    rw [ih, List.reverse_cons, List.append_assoc, List.drop_eq_getElem_cons hi', hget,
      List.singleton_append]
  | case2 i done hi =>
    have hi' : bytes.data.toList.length ≤ i := by simpa using hi
    rw [List.drop_eq_nil_of_le hi', List.append_nil]

theorem flatMap_utf8_injective {cs cs' : List Char}
    (h : (cs.flatMap fun c => (String.singleton c).toUTF8.toList)
      = cs'.flatMap fun c => (String.singleton c).toUTF8.toList) : cs = cs' := by
  have hbytes (c : Char) : (String.singleton c).toUTF8.toList = String.utf8EncodeChar c := by
    rw [String.toUTF8_eq_toByteArray, String.toByteArray_singleton, List.utf8Encode_singleton,
      ByteArray.toList, toList_loop_eq, List.toList_data_toByteArray]
    rfl
  simp only [hbytes] at h
  refine String.ofList_injective (String.toByteArray_inj.1 ?_)
  rw [String.toByteArray_ofList, String.toByteArray_ofList, List.utf8Encode, List.utf8Encode, h]

/-- Texts that are written alike are the same, if no percent sign stands in them. -/
theorem encode_injective {reserved : Char → Bool} (hcs : '%' ∉ cs) {cs' : List Char}
    (hcs' : '%' ∉ cs') (h : encode reserved cs = encode reserved cs') : cs = cs' := by
  refine flatMap_utf8_injective ?_
  rw [← decodeBytes_encode hcs, ← decodeBytes_encode hcs', h]

end Url

end Provision
