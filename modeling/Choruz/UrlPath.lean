import Mathlib

/-!
# The path of a URL

The part of the URL standard's parser that an `http` client goes through: the text is cleaned,
scheme and authority are cut off, and the path state walks over the rest.  It reads a backslash as
a slash, percent-encodes what a path may not hold, and drops the segments that spell `.` or `..`.
No encoding makes a dot segment or takes one away, so the path is that of `segments`, encoded.
-/

namespace Url

abbrev Segment := List Char

def hexDigit (n : ℕ) : Char := "0123456789ABCDEF".toList.getD n '0'

def percentByte (b : UInt8) : List Char := ['%', hexDigit (b.toNat / 16), hexDigit (b.toNat % 16)]

def isBlank (c : Char) : Bool := c.toNat ≤ 0x20

def pathSet (c : Char) : Bool :=
  isBlank c || 0x7e < c.toNat || "\"#<>?\x60\x7b\x7d".toList.contains c

def encodeChar (c : Char) : List Char :=
  if pathSet c then (String.utf8EncodeChar c).flatMap percentByte else [c]

def encode (s : Segment) : Segment := s.flatMap encodeChar

def singleDots : List Segment := [".".toList, "%2e".toList]

def doubleDots : List Segment := ["..".toList, ".%2e".toList, "%2e.".toList, "%2e%2e".toList]

def isSingleDot (s : Segment) : Bool := s.map Char.toLower ∈ singleDots

def isDoubleDot (s : Segment) : Bool := s.map Char.toLower ∈ doubleDots

def isDots (s : Segment) : Bool := isSingleDot s || isDoubleDot s

def isSlash (c : Char) : Bool := c = '/' || c = '\\'

/-- What a finished segment makes of the path; `slash` says whether a slash ended it. -/
def endSegment (path : List Segment) (slash : Bool) (buffer : Segment) : List Segment :=
  if isDoubleDot buffer then path.dropLast ++ if slash then [] else [[]]
  else if isSingleDot buffer then path ++ if slash then [] else [[]]
  else path ++ [buffer]

def pathState (path : List Segment) (buffer : Segment) : List Char → List Segment
  | [] => endSegment path false buffer
  | c :: cs =>
    if isSlash c then pathState (endSegment path true buffer) [] cs
    else pathState path (buffer ++ encodeChar c) cs

/-- What is left of the segments of a path without those that spell dots. -/
def dropDots (path : List Segment) : List Segment → List Segment
  | [] => path
  | [s] => endSegment path false s
  | s :: t :: rest => dropDots (endSegment path true s) (t :: rest)

/-- The segments of a path, as they are written. -/
def segments (text : List Char) : List Segment := dropDots [] (text.splitOnP isSlash)

/-- The path start state skips one slash. -/
def startPath : List Char → List Char
  | [] => []
  | c :: cs => if isSlash c then cs else c :: cs

inductive Scheme where
  | http | https
  deriving DecidableEq, Repr

def Scheme.name : Scheme → List Char
  | .http => "http".toList
  | .https => "https".toList

def Scheme.parse? (text : List Char) : Option Scheme :=
  if text.map Char.toLower = Scheme.http.name then some .http
  else if text.map Char.toLower = Scheme.https.name then some .https
  else none

/-- Control characters and blanks go from both ends, tabs and newlines from everywhere. -/
def clean (text : List Char) : List Char :=
  ((text.dropWhile isBlank).rdropWhile isBlank).filter fun c => c ∉ ['\t', '\n', '\r']

def pathText (text : List Char) : List Char := text.takeWhile fun c => c ≠ '?' ∧ c ≠ '#'

def endsAuthority (c : Char) : Bool := isSlash c || c = '?' || c = '#'

end Url

/-- A parsed URL; the query and the fragment are left out. -/
structure Url where
  scheme : Url.Scheme
  authority : List Char
  path : List Url.Segment

namespace Url

def parse (text : List Char) : Option Url := do
  let text := clean text
  let scheme ← Scheme.parse? (text.takeWhile (· ≠ ':'))
  let rest := ((text.dropWhile (· ≠ ':')).drop 1).dropWhile isSlash
  let authority := rest.takeWhile (¬ endsAuthority ·)
  let path := startPath (pathText (rest.dropWhile (¬ endsAuthority ·)))
  if authority = [] then none
  else some { scheme, authority, path := pathState [] [] path }

def pathname (u : Url) : List Char := ['/'].intercalate ([] :: u.path)

@[simp] theorem encode_nil : encode [] = [] := rfl

@[simp] theorem encode_cons (c : Char) (s : Segment) : encode (c :: s) = encodeChar c ++ encode s :=
  List.flatMap_cons

@[simp] theorem encode_append (s t : Segment) : encode (s ++ t) = encode s ++ encode t :=
  List.flatMap_append

theorem hexDigit_mem (n : ℕ) : hexDigit n ∈ "0123456789ABCDEF".toList := by
  unfold hexDigit
  rw [List.getD_eq_getElem?_getD]
  rcases hn : "0123456789ABCDEF".toList[n]? with - | c
  · decide
  · exact List.mem_of_getElem? hn

theorem hexDigit_ne_slash (n : ℕ) : hexDigit n ≠ '/' := by
  have h := hexDigit_mem n
  revert h
  generalize hexDigit n = c
  rintro h rfl
  exact absurd h (by decide)

variable {c : Char}

theorem slash_notMem_encodeChar (hc : c ≠ '/') : '/' ∉ encodeChar c := by
  unfold encodeChar
  split_ifs with hs
  · simp [percentByte, (hexDigit_ne_slash _).symm]
  · simpa using hc.symm

variable {s : Segment} {rest : List Char} {cs : List Char}

theorem slash_notMem_encode (hs : '/' ∉ s) : '/' ∉ encode s := by
  intro h
  obtain ⟨c, hc, hm⟩ := List.mem_flatMap.1 h
  exact slash_notMem_encodeChar (fun heq => hs (heq ▸ hc)) hm

theorem exists_utf8EncodeChar (c : Char) :
    ∃ b bs, String.utf8EncodeChar c = b :: bs ∧ (b.toNat = 46 → c = '.') := by
  unfold String.utf8EncodeChar
  dsimp only
  split_ifs with h1 h2 h3
  · refine ⟨_, _, rfl, fun hb => Char.ext ?_⟩
    rw [UInt8.toNat_ofNat', Nat.mod_eq_of_lt (by omega)] at hb
    exact UInt32.toNat_inj.1 hb
  all_goals
    refine ⟨_, _, rfl, fun hb => ?_⟩
    rw [UInt8.toNat_ofNat'] at hb
    omega

theorem exists_encodeChar (hc : pathSet c) :
    ∃ (b : UInt8) (rest : List Char), encodeChar c = percentByte b ++ rest ∧ b.toNat ≠ 46 := by
  obtain ⟨b, bs, hb, hd⟩ := exists_utf8EncodeChar c
  refine ⟨b, bs.flatMap percentByte, by rw [encodeChar, if_pos hc, hb, List.flatMap_cons], ?_⟩
  rintro h46
  rw [hd h46] at hc
  exact absurd hc (by decide)

theorem encode_of_forall (h : ∀ c ∈ s, pathSet c = false) : encode s = s := by
  induction s with
  | nil => rfl
  | cons c s ih =>
    rw [encode_cons, ih fun d hd => h d (List.mem_cons_of_mem _ hd), encodeChar,
      if_neg (by simp [h c])]
    rfl

theorem encode_cases (s : Segment) :
    encode s = s ∨ ∃ b : UInt8, b.toNat ≠ 46 ∧ percentByte b <:+: encode s := by
  by_cases h : ∀ c ∈ s, pathSet c = false
  · exact .inl (encode_of_forall h)
  push Not at h
  obtain ⟨c, hc, hs⟩ := h
  obtain ⟨s1, s2, rfl⟩ := List.append_of_mem hc
  obtain ⟨b, rest, hb, h46⟩ := exists_encodeChar (by simpa using hs)
  refine .inr ⟨b, h46, encode s1, rest ++ encode s2, ?_⟩
  simp [hb]

theorem encode_eq_self (h : '%' ∉ encode s) : encode s = s := by
  obtain heq | ⟨b, -, hb⟩ := encode_cases s
  · exact heq
  · exact absurd (hb.subset (by simp [percentByte])) h

theorem percent_of_isDots {t : Segment} (h : isDots t) {a b : Char}
    (hi : ['%', a, b] <:+: t) : a.toLower = '2' ∧ b.toLower = 'e' := by
  have hm : ['%', a.toLower, b.toLower] <:+: t.map Char.toLower := hi.map Char.toLower
  revert hm
  simp only [isDots, isSingleDot, isDoubleDot, singleDots, doubleDots, Bool.or_eq_true,
    decide_eq_true_eq, List.mem_cons, List.not_mem_nil, or_false] at h
  revert h
  generalize t.map Char.toLower = u
  rintro ((rfl | rfl) | rfl | rfl | rfl | rfl) hi <;> simp [List.infix_cons_iff] at hi ⊢ <;>
    simpa using hi

theorem hexDigit_toLower {n : ℕ} (hn : n < 16) :
    ((hexDigit n).toLower = '2' → n = 2) ∧ ((hexDigit n).toLower = 'e' → n = 14) := by
  revert n
  decide

theorem toLower_of_pathSet (h : pathSet c) : c.toLower = c := by
  rw [Char.toLower]
  refine dif_neg fun hu => ?_
  have hl : 65 ≤ c.toNat := UInt32.le_iff_toNat_le.1 hu.1
  have hh : c.toNat ≤ 90 := UInt32.le_iff_toNat_le.1 hu.2
  simp only [pathSet, isBlank, Bool.or_eq_true, decide_eq_true_eq] at h
  rcases h with (h | h) | h
  · omega
  · omega
  · simp at h
    rcases h with rfl | rfl | rfl | rfl | rfl | rfl | rfl | rfl <;> revert hl hh <;> decide

theorem encode_of_toLower (h : ∀ c ∈ s.map Char.toLower, pathSet c = false) : encode s = s := by
  refine encode_of_forall fun c hc => Bool.eq_false_iff.2 fun hs => ?_
  have hl := h _ (List.mem_map_of_mem hc)
  rw [toLower_of_pathSet hs, hs] at hl
  cases hl

theorem encode_of_isDots (h : isDots s) : encode s = s := by
  refine encode_of_toLower ?_
  simp only [isDots, isSingleDot, isDoubleDot, singleDots, doubleDots, Bool.or_eq_true,
    decide_eq_true_eq, List.mem_cons, List.not_mem_nil, or_false] at h
  rcases h with (h | h) | h | h | h | h <;> rw [h] <;> simp <;> decide

theorem encode_of_isDots_encode (h : isDots (encode s)) : encode s = s := by
  obtain heq | ⟨b, h46, hb⟩ := encode_cases s
  · exact heq
  obtain ⟨hh, hl⟩ := percent_of_isDots h hb
  have hlt := b.toNat_lt
  have h2 := (hexDigit_toLower (by omega)).1 hh
  have h14 := (hexDigit_toLower (Nat.mod_lt _ (by decide))).2 hl
  omega

@[simp] theorem isDots_encode (s : Segment) :
    isSingleDot (encode s) = isSingleDot s ∧ isDoubleDot (encode s) = isDoubleDot s := by
  by_cases h : isDots s ∨ isDots (encode s)
  · rw [h.elim encode_of_isDots encode_of_isDots_encode]
    exact ⟨rfl, rfl⟩
  · simp only [not_or, isDots, Bool.or_eq_true, Bool.not_eq_true] at h
    simp [h]

theorem modifyHead_nil_append (l : List Segment) : l.modifyHead ([] ++ ·) = l := by
  cases l <;> rfl

theorem endSegment_encode (path : List Segment) (slash : Bool) (s : Segment) :
    endSegment (path.map encode) slash (encode s) = (endSegment path slash s).map encode := by
  unfold endSegment
  rw [(isDots_encode s).1, (isDots_encode s).2]
  split_ifs <;> simp

/-- The path state over `cs`, with `b` read of the segment it is in. -/
theorem pathState_encode (path : List Segment) (b : Segment) : pathState (path.map encode) (encode b)
    cs = (dropDots path ((cs.splitOnP isSlash).modifyHead (b ++ ·))).map encode := by
  induction cs generalizing path b with
  | nil => simpa [pathState, dropDots] using endSegment_encode path false b
  | cons c cs ih =>
    rw [pathState, List.splitOnP_cons_eq_if_modifyHead]
    split_ifs with hc
    · have hr := ih (endSegment path true b) []
      rw [modifyHead_nil_append] at hr
      rw [endSegment_encode, encode_nil.symm, hr]
      rcases hcs : cs.splitOnP isSlash with - | ⟨t, rest⟩
      · exact absurd hcs (List.splitOnP_ne_nil _ _)
      · simp [dropDots]
    · simpa [Function.comp_def] using ih path (b ++ [c])

theorem pathState_eq (cs : List Char) : pathState [] [] cs = (segments cs).map encode := by
  have h := @pathState_encode cs [] []
  rwa [modifyHead_nil_append] at h

/-- A scheme and an authority that ends where the path starts. -/
structure Origin where
  scheme : Scheme
  authority : List Char
  authority_ne_nil : authority ≠ []
  authority_plain : authority.all (fun c => !isBlank c && !endsAuthority c)

namespace Origin

def text (o : Origin) : List Char := o.scheme.name ++ "://".toList ++ o.authority

/-- Whether a request for the URL goes to the server of the origin. -/
def serves (o : Origin) (u : Url) : Bool := u.scheme = o.scheme && u.authority = o.authority

theorem plain_of_mem {o : Origin} (hc : c ∈ o.authority) :
    isBlank c = false ∧ endsAuthority c = false := by
  simpa using List.all_eq_true.1 o.authority_plain c hc

theorem not_blank_scheme (scheme : Scheme) :
    (scheme.name ++ "://".toList).all (fun c => !isBlank c) := by
  cases scheme <;> decide

theorem not_blank_text (o : Origin) : ∀ c ∈ o.text, isBlank c = false := by
  intro c hc
  rcases List.mem_append.1 hc with hc | hc
  · simpa using List.all_eq_true.1 (not_blank_scheme o.scheme) c hc
  · exact (plain_of_mem hc).1

end Origin

theorem clean_eq_self {text : List Char} (h : ∀ c ∈ text, isBlank c = false) : clean text = text := by
  have hd : text.dropWhile isBlank = text :=
    List.dropWhile_eq_self_iff.2 fun hl => by simpa using h _ (List.getElem_mem hl)
  have hr : text.rdropWhile isBlank = text :=
    List.rdropWhile_eq_self_iff.2 fun hl => by simpa using h _ (List.getLast_mem hl)
  rw [clean, hd, hr, List.filter_eq_self]
  intro c hc
  have hlt := h c hc
  rw [decide_eq_true_eq]
  intro hm
  simp at hm
  rcases hm with rfl | rfl | rfl <;> exact absurd hlt (by decide)

theorem parse_origin (o : Origin) (hr : ∀ c ∈ rest, isBlank c = false) :
    parse (o.text ++ '/' :: rest) = some {
      scheme := o.scheme, authority := o.authority,
      path := (segments (pathText rest)).map encode } := by
  have hcl : clean (o.text ++ '/' :: rest) = o.text ++ '/' :: rest := by
    refine clean_eq_self fun c hc => ?_
    rcases List.mem_append.1 hc with hc | hc
    · exact o.not_blank_text c hc
    rcases List.mem_cons.1 hc with rfl | hc
    · decide
    · exact hr c hc
  have hp : ∀ c ∈ o.authority, decide (¬ endsAuthority c) :=
    fun c hc => by simp [(Origin.plain_of_mem hc).2]
  have hsl : ¬ isSlash (o.authority.head o.authority_ne_nil) := fun h => by
    have := (Origin.plain_of_mem (List.head_mem o.authority_ne_nil)).2
    simp [endsAuthority, h] at this
  have ha : (o.authority ++ '/' :: rest).dropWhile isSlash = o.authority ++ '/' :: rest :=
    List.dropWhile_eq_self_iff.2 fun hl => by
      rw [List.getElem_append_left (List.length_pos_iff.2 o.authority_ne_nil)]
      rwa [← List.head_eq_getElem_zero o.authority_ne_nil]
  have hn : (o.text ++ '/' :: rest).takeWhile (· ≠ ':') = o.scheme.name := by
    rcases ho : o.scheme <;> simp [Origin.text, Scheme.name, ho]
  have hr : ((o.text ++ '/' :: rest).dropWhile (· ≠ ':')).drop 1 =
      '/' :: '/' :: (o.authority ++ '/' :: rest) := by
    rcases ho : o.scheme <;> simp [Origin.text, Scheme.name, ho]
  have hs : Scheme.parse? o.scheme.name = some o.scheme := by
    rcases o.scheme <;> decide
  simp only [parse, hcl, hn, hr, hs, Option.bind_eq_bind, Option.bind_some]
  rw [List.dropWhile_cons_of_pos (by decide), List.dropWhile_cons_of_pos (by decide), ha,
    List.takeWhile_append_of_pos hp, List.dropWhile_append_of_pos hp,
    List.takeWhile_cons_of_neg (by decide), List.dropWhile_cons_of_neg (by decide),
    List.append_nil, if_neg o.authority_ne_nil, ← pathState_eq, pathText]
  rfl

theorem not_of_mem_splitOnP {p : Char → Bool} {text : List Char} (hs : s ∈ text.splitOnP p) :
    ∀ c ∈ s, ¬ p c := by
  induction text generalizing s with
  | nil =>
    rw [List.splitOnP_nil, List.mem_singleton] at hs
    simp [hs]
  | cons c cs ih =>
    rw [List.splitOnP_cons_eq_if_modifyHead] at hs
    split_ifs at hs with hc
    · rcases List.mem_cons.1 hs with rfl | hs
      · simp
      · exact ih hs
    · rcases hcs : cs.splitOnP p with - | ⟨t, ts⟩ <;> rw [hcs] at hs ih
      · simp at hs
      · rcases List.mem_cons.1 hs with rfl | hs
        · simpa [hc] using ih List.mem_cons_self
        · exact ih (List.mem_cons_of_mem _ hs)

theorem slash_notMem_of_mem_splitOn {text : List Char} (hs : s ∈ text.splitOn '/') : '/' ∉ s :=
  fun hm => not_of_mem_splitOnP hs _ hm (by simp)

theorem mem_of_mem_endSegment {path : List Segment} {slash : Bool} {b : Segment}
    (h : s ∈ endSegment path slash b) : s ∈ path ∨ s = b ∨ s = [] := by
  unfold endSegment at h
  split_ifs at h <;> simp at h
  · exact .inl (List.mem_of_mem_dropLast h)
  · exact h.imp List.mem_of_mem_dropLast .inr
  · exact .inl h
  · exact h.imp_right .inr
  · exact h.imp_right .inl

theorem mem_of_mem_dropDots : ∀ {ss path : List Segment}, s ∈ dropDots path ss →
    s ∈ path ∨ s ∈ ss ∨ s = []
  | [], _, h => .inl h
  | [_], _, h => by simpa using mem_of_mem_endSegment h
  | _ :: t :: rest, _, h => by
    rcases @mem_of_mem_dropDots (t :: rest) _ h with h | h | h
    · rcases mem_of_mem_endSegment h with h | rfl | h
      · exact .inl h
      · exact .inr (.inl List.mem_cons_self)
      · exact .inr (.inr h)
    · exact .inr (.inl (List.mem_cons_of_mem _ h))
    · exact .inr (.inr h)

theorem slash_notMem_of_mem_segments {text : List Char} (hs : s ∈ segments text) : '/' ∉ s := by
  rcases mem_of_mem_dropDots hs with h | h | rfl
  · cases h
  · exact fun hm => not_of_mem_splitOnP h _ hm (by decide)
  · simp

theorem dropDots_of_plain : ∀ {ss path : List Segment}, ss ≠ [] → (∀ s ∈ ss, isDots s = false) →
    dropDots path ss = path ++ ss
  | [s], path, _, h => by
    have hs := h s List.mem_cons_self
    simp [isDots] at hs
    simp [dropDots, endSegment, hs]
  | s :: t :: rest, path, _, h => by
    have hs := h s List.mem_cons_self
    simp [isDots] at hs
    rw [dropDots, dropDots_of_plain (by simp) fun u hu => h u (List.mem_cons_of_mem _ hu)]
    simp [endSegment, hs]

/-- Without a backslash and dot segments nothing is dropped. -/
theorem segments_of_plain {text : List Char} (hb : '\\' ∉ text)
    (hd : ∀ s ∈ text.splitOn '/', isDots s = false) : segments text = text.splitOn '/' := by
  have hs : text.splitOnP isSlash = text.splitOn '/' := by
    clear hd
    induction text with
    | nil => rfl
    | cons c text ih =>
      rw [List.mem_cons, not_or] at hb
      rw [List.splitOn, List.splitOnP_cons_eq_if_modifyHead, List.splitOnP_cons_eq_if_modifyHead,
        ih hb.2, List.splitOn]
      simp [isSlash, Ne.symm hb.1]
  rw [segments, hs]
  exact dropDots_of_plain (List.splitOnP_ne_nil _ _) hd

theorem splitOn_eq_cons {text : List Char} {ss : List Segment} (h : text.splitOn '/' = s :: ss) :
    (text = s ∧ ss = []) ∨ ∃ rest, text = s ++ '/' :: rest ∧ rest.splitOn '/' = ss := by
  have hs : ∀ t ∈ s :: ss, '/' ∉ t := fun t ht =>
    slash_notMem_of_mem_splitOn (h ▸ ht)
  have hte : ['/'].intercalate (text.splitOn '/') = text := List.intercalate_splitOn '/'
  rw [h] at hte
  cases ss with
  | nil => exact .inl ⟨by rw [← hte]; simp, rfl⟩
  | cons t ts =>
    refine .inr ⟨['/'].intercalate (t :: ts), ?_, ?_⟩
    · rw [← hte]
      simp
    · exact List.splitOn_intercalate '/' (fun u hu => hs u (List.mem_cons_of_mem _ hu)) (by simp)

theorem splitOn_pathname {u : Url} (h : ∀ s ∈ u.path, '/' ∉ s) :
    u.pathname.splitOn '/' = [] :: u.path :=
  List.splitOn_intercalate '/' (by simpa using h) (by simp)

theorem splitOn_append (hs : '/' ∉ s) (rest : List Char) :
    (s ++ '/' :: rest).splitOn '/' = s :: rest.splitOn '/' := by
  rw [List.splitOn, List.splitOnP_append_cons _ _ (by simp), List.splitOnP_eq_singleton]
  · rfl
  · intro c hc
    simpa using fun heq : c = '/' => hs (heq ▸ hc)

end Url
