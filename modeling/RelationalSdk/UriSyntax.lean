import RelationalSdk.Text

/-!
# The generic syntax of addresses

An address with an authority is cut into scheme, authority, path, and what follows the path
(`split`), at the first characters that can end each of them. `split_append` and `exists_of_split`
say which texts have given parts.

An authority is read as `[ userinfo "@" ] host [ ":" port ]` (`Reading`). A host is a registered
name or an address, without the delimiters, or stands in brackets. `Reading.unique` : an authority
has at most one reading.

A path is resolved segment by segment (`resolve`) : `.` stays where it is, `..` goes back over the
segment before it, and a path that ends with either ends with a slash. `head?_resolve_eq_some_iff` :
a resolved path starts with the segment that the walk enters when it stands at the root for the last
time.
-/

namespace Uri

open Text

/-! ## Parts -/

def endsScheme (c : Char) : Bool :=
  c ∈ [':', '/', '?', '#']

def endsAuthority (c : Char) : Bool :=
  c ∈ ['/', '?', '#']

def endsPath (c : Char) : Bool :=
  c ∈ ['?', '#']

structure Parts where
  scheme : Str
  authority : Str
  path : Str
  /-- The query and the fragment, with their marks. -/
  rest : Str

/-- The parts of an address with an authority. -/
def split (url : Str) : Option Parts :=
  match url.dropWhile fun c => !endsScheme c with
  | ':' :: '/' :: '/' :: s =>
    let tail := s.dropWhile fun c => !endsAuthority c
    some
      { scheme := url.takeWhile fun c => !endsScheme c
        authority := s.takeWhile fun c => !endsAuthority c
        path := tail.takeWhile fun c => !endsPath c
        rest := tail.dropWhile fun c => !endsPath c }
  | _ => none

/-- A text can follow an authority. -/
def IsTail (t : Str) : Prop :=
  ∀ c, t.head? = some c → endsAuthority c

theorem not_of_mem_takeWhile {p : Char → Bool} {s : Str} {c : Char}
    (hc : c ∈ s.takeWhile fun c => !p c) : ¬p c := by
  simpa using List.mem_takeWhile_imp hc

theorem isTail_dropWhile (s : Str) : IsTail (s.dropWhile fun c => !endsAuthority c) := by
  intro c hc
  have hhead := List.head?_dropWhile_not (fun c => !endsAuthority c) s
  rw [hc] at hhead
  simpa using hhead

theorem split_append {scheme authority tail : Str} (hscheme : ∀ c ∈ scheme, ¬endsScheme c)
    (hauthority : ∀ c ∈ authority, ¬endsAuthority c) (htail : IsTail tail) :
    split (scheme ++ ':' :: '/' :: '/' :: (authority ++ tail)) =
      some ⟨scheme, authority, tail.takeWhile fun c => !endsPath c,
        tail.dropWhile fun c => !endsPath c⟩ := by
  have hcolon : ∀ c, (':' :: '/' :: '/' :: (authority ++ tail)).head? = some c →
      (!endsScheme c) = false := by
    rintro _ ⟨⟩
    decide
  have hend : ∀ c, tail.head? = some c → (!endsAuthority c) = false :=
    fun c hc => by rw [htail c hc, Bool.not_true]
  obtain ⟨htake, hdrop⟩ := span_append (p := fun c => !endsScheme c) (by simpa using hscheme) hcolon
  obtain ⟨htake', hdrop'⟩ := span_append (p := fun c => !endsAuthority c)
    (by simpa using hauthority) hend
  unfold split
  simp only [htake, hdrop, htake', hdrop']

theorem exists_of_split {url : Str} {parts : Parts} (h : split url = some parts) :
    url = parts.scheme ++ ':' :: '/' :: '/' :: (parts.authority ++ (parts.path ++ parts.rest)) ∧
      (∀ c ∈ parts.scheme, ¬endsScheme c) ∧ (∀ c ∈ parts.authority, ¬endsAuthority c) ∧
      IsTail (parts.path ++ parts.rest) := by
  unfold split at h
  split at h
  · next s hs =>
    obtain rfl := Option.some_inj.mp h
    have hurl := List.takeWhile_append_dropWhile (p := fun c => !endsScheme c) (l := url)
    rw [hs] at hurl
    refine ⟨?_, fun _ => not_of_mem_takeWhile, fun _ => not_of_mem_takeWhile, ?_⟩
    · rw [List.takeWhile_append_dropWhile, List.takeWhile_append_dropWhile]
      exact hurl.symm
    · rw [List.takeWhile_append_dropWhile]
      exact isTail_dropWhile s
  · cases h

/-! ## Authorities -/

def isUnreserved (c : Char) : Bool :=
  c.isAlphanum || c ∈ ['-', '.', '_', '~']

def isSubDelim (c : Char) : Bool :=
  c ∈ "!$&'()*+,;=".toList

def isHexDigit (c : Char) : Bool :=
  (digitValue c).isSome

/-- Characters that satisfy `ok`, and percent-encoded octets. -/
def encodedText (ok : Char → Bool) : Str → Bool
  | [] => true
  | '%' :: a :: b :: s => isHexDigit a && isHexDigit b && encodedText ok s
  | c :: s => ok c && encodedText ok s

def isUserinfo : Str → Bool :=
  encodedText fun c => isUnreserved c || isSubDelim c || c = ':'

/-- The delimiters of an authority. -/
def isDelimiter (c : Char) : Bool :=
  c ∈ ['@', ':', '[', ']']

/-- A registered name or an address, or a literal in brackets. -/
def HostShape (host : Str) : Prop :=
  (∀ c ∈ host, ¬isDelimiter c) ∨
    ∃ literal, host = '[' :: (literal ++ [']']) ∧ '@' ∉ literal ∧ ']' ∉ literal

def userinfoPart : Option Str → Str
  | none => []
  | some u => u ++ ['@']

def portPart : Option Str → Str
  | none => []
  | some p => ':' :: p

/-- An authority read as `[ userinfo "@" ] host [ ":" port ]`. -/
structure Reading (authority : Str) (userinfo : Option Str) (host : Str) (port : Option Str) :
    Prop where
  text : authority = userinfoPart userinfo ++ (host ++ portPart port)
  userinfo_ok : ∀ u ∈ userinfo, isUserinfo u
  host_ok : HostShape host
  port_ok : ∀ p ∈ port, ∀ c ∈ p, c.isDigit

theorem HostShape.at_not_mem {host : Str} (h : HostShape host) : '@' ∉ host := by
  rcases h with hplain | ⟨literal, rfl, hat, -⟩
  · exact fun hmem => hplain '@' hmem (by decide)
  · simpa using hat

theorem portPart_inj {p q : Option Str} (h : portPart p = portPart q) : p = q := by
  cases p <;> cases q <;> simp_all [portPart]

/-- The part in front of an optional separator. -/
theorem append_portPart_inj {h h' : Str} (hh : ':' ∉ h) (hh' : ':' ∉ h') {p q : Option Str}
    (heq : h ++ portPart p = h' ++ portPart q) : h = h' ∧ p = q := by
  cases p with
  | none =>
    cases q with
    | none => exact ⟨by simpa [portPart] using heq, rfl⟩
    | some q => exact absurd (by simp [portPart] at heq; simp [heq]) hh
  | some p =>
    cases q with
    | none => exact absurd (by simp [portPart] at heq; simp [← heq]) hh'
    | some q =>
      obtain ⟨rfl, rfl⟩ := append_cons_inj_left hh hh' heq
      exact ⟨rfl, rfl⟩

theorem HostShape.unique {h h' : Str} (hh : HostShape h) (hh' : HostShape h') {p q : Option Str}
    (heq : h ++ portPart p = h' ++ portPart q) : h = h' ∧ p = q := by
  -- a plain host starts no bracket, also when it is empty
  have hmixed : ∀ {h l t : Str} {p : Option Str}, (∀ c ∈ h, ¬isDelimiter c) →
      h ++ portPart p ≠ '[' :: l ++ t := by
    intro h l t p hplain heq
    cases h with
    | nil => cases p <;> simp [portPart] at heq
    | cons c h =>
      obtain rfl : c = '[' := (List.cons.inj heq).1
      exact hplain '[' List.mem_cons_self (by decide)
  rcases hh with hplain | ⟨l, rfl, -, hl⟩
  · rcases hh' with hplain' | ⟨l', rfl, -, -⟩
    · exact append_portPart_inj (fun hmem => hplain ':' hmem (by decide))
        (fun hmem => hplain' ':' hmem (by decide)) heq
    · exact absurd heq (hmixed hplain)
  · rcases hh' with hplain' | ⟨l', rfl, -, hl'⟩
    · exact absurd heq.symm (hmixed hplain')
    · have htail : l ++ ']' :: portPart p = l' ++ ']' :: portPart q := by simpa using heq
      obtain ⟨rfl, hport⟩ := append_cons_inj_left hl hl' htail
      exact ⟨rfl, portPart_inj hport⟩

theorem Reading.at_not_mem {a host : Str} {userinfo port : Option Str}
    (h : Reading a userinfo host port) : '@' ∉ host ++ portPart port := by
  intro hmem
  rcases List.mem_append.mp hmem with hmem | hmem
  · exact h.host_ok.at_not_mem hmem
  · cases port with
    | none => cases hmem
    | some p =>
      rcases List.mem_cons.mp hmem with heq | hmem
      · exact absurd heq (by decide)
      · exact absurd (h.port_ok p rfl '@' hmem) (by decide)

/-- The part in front of the last `@`. -/
theorem userinfoPart_append_inj {u u' : Option Str} {s s' : Str} (hs : '@' ∉ s) (hs' : '@' ∉ s')
    (heq : userinfoPart u ++ s = userinfoPart u' ++ s') : u = u' ∧ s = s' := by
  cases u with
  | none =>
    cases u' with
    | none => exact ⟨rfl, heq⟩
    | some u' => exact absurd (by simp [userinfoPart] at heq; simp [heq]) hs
  | some u =>
    cases u' with
    | none => exact absurd (by simp [userinfoPart] at heq; simp [← heq]) hs'
    | some u' =>
      simp only [userinfoPart, List.append_assoc, List.singleton_append] at heq
      obtain ⟨rfl, hrest⟩ := append_cons_inj_right hs hs' heq
      exact ⟨rfl, hrest⟩

/-- An authority has at most one reading. -/
theorem Reading.unique {a host host' : Str} {userinfo userinfo' port port' : Option Str}
    (h : Reading a userinfo host port) (h' : Reading a userinfo' host' port') :
    userinfo = userinfo' ∧ host = host' ∧ port = port' := by
  obtain ⟨huserinfo, hrest⟩ := userinfoPart_append_inj h.at_not_mem h'.at_not_mem
    (h.text.symm.trans h'.text)
  exact ⟨huserinfo, h.host_ok.unique h'.host_ok hrest⟩

/-! ## Paths -/

/-- The segments of a path that starts with a slash. -/
def segments (path : Str) : List Str :=
  (path.splitOn '/').tail

def dot : Str := ['.']

def dotDot : Str := ['.', '.']

/-- The segments walked through, the last one first. -/
def walk (out : List Str) (s : Str) : List Str :=
  if s = dot then out
  else if s = dotDot then out.tail
  else s :: out

/-- A path that ends with a dot segment ends with a slash. -/
def closed (segs : List Str) : List Str :=
  if segs.getLast? = some dot ∨ segs.getLast? = some dotDot then segs ++ [[]] else segs

/-- The segments that are left when the dot segments are removed. -/
def resolve (segs : List Str) : List Str :=
  ((closed segs).foldl walk []).reverse

/-- How far below the root a walk stands after one more segment. -/
def stepDepth (n : Nat) (s : Str) : Nat :=
  if s = dot then n else if s = dotDot then n - 1 else n + 1

/-- How far below the root a walk from depth `n` ends. -/
def depth (n : Nat) (segs : List Str) : Nat :=
  segs.foldl stepDepth n

/-- A walk from depth `n` does not come to the root. -/
def StaysBelow (n : Nat) (segs : List Str) : Prop :=
  ∀ q, q <+: segs → 0 < depth n q

instance (n : Nat) (segs : List Str) : Decidable (StaysBelow n segs) :=
  decidable_of_iff (∀ q ∈ segs.inits, 0 < depth n q) (by simp only [List.mem_inits, StaysBelow])

/-- A walk from depth `n` enters `s` at the root, and does not come back to the root. -/
def Enters (n : Nat) (s : Str) (segs : List Str) : Prop :=
  ∃ before after, segs = before ++ s :: after ∧ depth n before = 0 ∧ StaysBelow 1 after

theorem length_walk (out : List Str) (t : Str) : (walk out t).length = stepDepth out.length t := by
  unfold walk stepDepth
  split_ifs with hdot hdotDot
  · rfl
  · exact List.length_tail
  · rfl

theorem StaysBelow.pos {n : Nat} {segs : List Str} (h : StaysBelow n segs) : 0 < n :=
  h [] List.nil_prefix

theorem staysBelow_cons {n : Nat} {t : Str} {segs : List Str} :
    StaysBelow n (t :: segs) ↔ 0 < n ∧ StaysBelow (stepDepth n t) segs := by
  constructor
  · intro h
    exact ⟨h.pos, fun q hq => h (t :: q) (List.cons_prefix_cons.mpr ⟨rfl, hq⟩)⟩
  · rintro ⟨hn, h⟩ q hq
    rcases List.prefix_cons_iff.mp hq with rfl | ⟨q', rfl, hq'⟩
    · exact hn
    · exact h q' hq'

theorem not_enters_nil {n : Nat} {s : Str} : ¬Enters n s [] := by
  rintro ⟨before, after, heq, -, -⟩
  simp at heq

theorem enters_cons {n : Nat} {s t : Str} {segs : List Str} :
    Enters n s (t :: segs) ↔
      (t = s ∧ n = 0 ∧ StaysBelow 1 segs) ∨ Enters (stepDepth n t) s segs := by
  constructor
  · rintro ⟨before, after, heq, hdepth, hafter⟩
    cases before with
    | nil =>
      obtain ⟨rfl, rfl⟩ := List.cons.inj heq
      exact Or.inl ⟨rfl, hdepth, hafter⟩
    | cons b before =>
      obtain ⟨rfl, rfl⟩ := List.cons.inj heq
      exact Or.inr ⟨before, after, rfl, hdepth, hafter⟩
  · rintro (⟨rfl, rfl, hafter⟩ | ⟨before, after, rfl, hdepth, hafter⟩)
    · exact ⟨[], segs, rfl, rfl, hafter⟩
    · exact ⟨t :: before, after, rfl, hdepth, hafter⟩

section Walk

variable {s : Str} (hdot : s ≠ dot) (hdotDot : s ≠ dotDot)
include hdot hdotDot

/-- What one segment does to the segment at the root. -/
theorem getLast?_walk {out segs : List Str} {t : Str} :
    (walk out t).getLast? = some s ∧ StaysBelow (stepDepth out.length t) segs ↔
      (out.getLast? = some s ∧ 0 < out.length ∧ StaysBelow (stepDepth out.length t) segs) ∨
        (t = s ∧ out.length = 0 ∧ StaysBelow 1 segs) := by
  unfold walk stepDepth
  split_ifs with ht ht'
  · have hts : t ≠ s := fun h => hdot (h.symm.trans ht)
    simp only [hts, false_and, or_false]
    exact and_congr_right fun _ => ⟨fun h => ⟨h.pos, h⟩, And.right⟩
  · have hts : t ≠ s := fun h => hdotDot (h.symm.trans ht')
    simp only [hts, false_and, or_false]
    -- a segment is left at the root if at least two were walked through
    rcases out with _ | ⟨a, _ | ⟨b, out⟩⟩
    · simp
    · exact iff_of_false (fun h => by simp at h) fun h => absurd h.2.2.pos (by simp)
    · simp
  · rcases out with _ | ⟨a, out⟩
    · simp
    · simp

/-- The segment at the root at the end was there from the start, or was entered there. -/
theorem getLast?_foldl_walk {out segs : List Str} :
    (segs.foldl walk out).getLast? = some s ↔
      (out.getLast? = some s ∧ StaysBelow out.length segs) ∨ Enters out.length s segs := by
  induction segs generalizing out with
  | nil =>
    simp only [List.foldl_nil, not_enters_nil, or_false]
    refine ⟨fun h => ⟨h, fun q hq => ?_⟩, And.left⟩
    obtain rfl := List.prefix_nil.mp hq
    exact List.length_pos_of_mem (List.mem_of_getLast? h)
  | cons t segs ih =>
    rw [List.foldl_cons, ih, length_walk, getLast?_walk hdot hdotDot, staysBelow_cons, enters_cons,
      or_assoc]

end Walk

/-- A slash at the end enters no named segment. -/
theorem enters_closed {s : Str} (hs : s ≠ []) {segs : List Str} :
    Enters 0 s (closed segs) ↔ Enters 0 s segs := by
  unfold closed
  split_ifs
  · constructor
    · rintro ⟨before, after, heq, hdepth, hafter⟩
      rcases List.eq_nil_or_concat' after with rfl | ⟨after', x, rfl⟩
      · have hlast := congrArg List.getLast? heq
        simp [hs.symm] at hlast
      · have heq' : segs ++ [[]] = (before ++ s :: after') ++ [x] := by simpa using heq
        obtain ⟨rfl, -⟩ := List.append_inj' heq' rfl
        exact ⟨before, after', rfl, hdepth,
          fun q hq => hafter q (hq.trans (List.prefix_append after' _))⟩
    · rintro ⟨before, after, rfl, hdepth, hafter⟩
      refine ⟨before, after ++ [[]], by simp, hdepth, fun q hq => ?_⟩
      rcases List.prefix_concat_iff.mp hq with rfl | hq
      · rw [depth, List.foldl_append]
        exact Nat.succ_pos _
      · exact hafter q hq
  · exact Iff.rfl

/-- A resolved path starts with the segment that the walk enters at the root for the last time. -/
theorem head?_resolve_eq_some_iff {segs : List Str} {s : Str} (hs : s ≠ []) (hdot : s ≠ dot)
    (hdotDot : s ≠ dotDot) : (resolve segs).head? = some s ↔ Enters 0 s segs := by
  rw [resolve, List.head?_reverse, getLast?_foldl_walk hdot hdotDot, ← enters_closed hs]
  simp

example : resolve (segments "/a/b/c/./../../g".toList) = ["a".toList, "g".toList] := by
  decide +kernel

end Uri
