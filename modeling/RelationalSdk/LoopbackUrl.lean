import RelationalSdk.UriSyntax

/-!
# Loopback addresses of the key set

The key set of the token issuer may be fetched over plain HTTP if its address is one of the loopback
interface (`isLoopbackHttpJwks`). The check cuts the address by hand : at the first of `/`, `?` and
`#`, at the last `@`, at the brackets, at the last colon.

What should pass are the addresses with the scheme `http`, in whichever case, whose authority can be
read with one of three hosts (`LoopbackUrl`). `loopbackExact_iff` : the check and this reading agree
on an address unless it is one of six kinds (`MisreadUrl`). Five of them pass without being such an
address : a malformed userinfo, a name in brackets, text behind the closing bracket, the address
`::1` without brackets, and a port that is no number. The sixth does not pass though it is one : a
scheme with a capital letter.
-/

namespace RelationalSdk

open Text Uri

/-! ## The check -/

/-- Loopback hosts that are written the same in an address. -/
def plainHosts : List Str :=
  ["localhost".toList, "127.0.0.1".toList]

/-- The hosts the check compares with. -/
def loopbackNames : List Str :=
  plainHosts ++ ["::1".toList]

/-- The authority without its userinfo. -/
def hostPortOf (authority : Str) : Str :=
  match rsplitOnce '@' authority with
  | some (_, h) => h
  | none => authority

/-- The host without brackets and port, if the brackets are closed. -/
def hostOf (hostPort : Str) : Option Str :=
  match hostPort with
  | '[' :: rest => (splitOnce ']' rest).map Prod.fst
  | _ =>
    match rsplitOnce ':' hostPort with
    | some (h, _) => some h
    | none => some hostPort

/-- `is_loopback_http_jwks`. -/
def isLoopbackHttpJwks (url : Str) : Bool :=
  match url.dropPrefix? "http://".toList with
  | none => false
  | some rest =>
    let authority := rest.takeWhile fun c => c ∉ ['/', '?', '#']
    match hostOf (hostPortOf authority) with
    | some host => host ∈ loopbackNames
    | none => false

/-! ## What should pass -/

def loopbackHosts : List Str :=
  plainHosts ++ ["[::1]".toList]

/-- An authority with a loopback host. -/
def ReadsLoopback (authority : Str) : Prop :=
  ∃ userinfo host port, Reading authority userinfo host port ∧ host ∈ loopbackHosts

/-- An `http` address with a loopback host. -/
def LoopbackUrl (url : Str) : Prop :=
  ∃ parts, split url = some parts ∧ parts.scheme.map Char.toLower = "http".toList ∧
    ReadsLoopback parts.authority

/-- Nothing, or a colon and digits. -/
def IsPort (s : Str) : Prop :=
  ∃ port, s = portPart port ∧ ∀ p ∈ port, ∀ c ∈ p, c.isDigit

/-- A loopback host with an optional port. -/
def LoopbackHostPort (hostPort : Str) : Prop :=
  ∃ host port, hostPort = host ++ port ∧ host ∈ loopbackHosts ∧ IsPort port

/-- Hosts that pass without being loopback hosts : a name in brackets, text behind the closing
bracket, an address that needs brackets, a port that is no number. -/
def MisreadHost (hostPort : Str) : Prop :=
  (∃ name rest, hostPort = '[' :: (name ++ ']' :: rest) ∧ name ∈ plainHosts) ∨
    (∃ rest, hostPort = '[' :: ("::1".toList ++ ']' :: rest) ∧ ¬IsPort rest) ∨
    (∃ port, hostPort = "::1".toList ++ ':' :: port ∧ ':' ∉ port) ∨
    ∃ name port, hostPort = name ++ ':' :: port ∧ name ∈ plainHosts ∧ ':' ∉ port ∧
      ¬IsPort (':' :: port)

/-- The addresses on which the check is wrong. -/
def MisreadUrl (url : Str) : Prop :=
  ∃ parts, split url = some parts ∧
    ((parts.scheme ≠ "http".toList ∧ parts.scheme.map Char.toLower = "http".toList ∧
        ReadsLoopback parts.authority) ∨
      parts.scheme = "http".toList ∧ ∃ userinfo hostPort,
        parts.authority = userinfoPart userinfo ++ hostPort ∧ '@' ∉ hostPort ∧
          ((∃ u ∈ userinfo, ¬isUserinfo u) ∧ LoopbackHostPort hostPort ∨ MisreadHost hostPort))

/-! ## Hosts -/

theorem plainHost_ne_nil {name : Str} (h : name ∈ plainHosts) : name ≠ [] := by
  have hall : plainHosts.all fun name => !name.isEmpty := by decide
  simpa using List.all_eq_true.mp hall name h

theorem plainHost_delimiter {name : Str} (h : name ∈ plainHosts) {c : Char} (hc : isDelimiter c) :
    c ∉ name := by
  have hall : plainHosts.all fun name => name.all fun c => !isDelimiter c := by decide
  have hname := List.all_eq_true.mp (List.all_eq_true.mp hall name h)
  intro hmem
  simpa [hc] using hname c hmem

/-- No name starts with a bracket. -/
theorem head?_loopbackName {name : Str} (h : name ∈ loopbackNames) (s : Str) :
    (name ++ s).head? ≠ some '[' := by
  have hall : loopbackNames.all fun name => name.head?.any (· ≠ '[') := by decide
  have hname := List.all_eq_true.mp hall name h
  cases name with
  | nil => cases hname
  | cons c name => simpa using hname

theorem bracket_not_mem_loopbackName {name : Str} (h : name ∈ loopbackNames) : ']' ∉ name := by
  have hall : loopbackNames.all fun name => !name.contains ']' := by decide
  simpa using List.all_eq_true.mp hall name h

theorem mem_loopbackNames_of_plain {name : Str} (h : name ∈ plainHosts) : name ∈ loopbackNames :=
  List.mem_append_left _ h

theorem hostOf_of_head {hostPort : Str} (h : hostPort.head? ≠ some '[') :
    hostOf hostPort = match rsplitOnce ':' hostPort with
      | some (h, _) => some h
      | none => some hostPort := by
  unfold hostOf
  split
  · exact absurd rfl h
  · rfl

/-- The hosts that pass the check, as they are written. -/
theorem hostOf_mem_iff {hostPort : Str} :
    (∃ name ∈ loopbackNames, hostOf hostPort = some name) ↔
      (∃ name rest, hostPort = '[' :: (name ++ ']' :: rest) ∧ name ∈ loopbackNames) ∨
        (∃ name port, hostPort = name ++ ':' :: port ∧ name ∈ loopbackNames ∧ ':' ∉ port) ∨
        hostPort ∈ plainHosts := by
  constructor
  · rintro ⟨name, hname, hhost⟩
    by_cases hhead : hostPort.head? = some '['
    · obtain ⟨rest, rfl⟩ := List.head?_eq_some_iff.mp hhead
      obtain ⟨⟨x, y⟩, hsplit, rfl⟩ := Option.map_eq_some_iff.mp hhost
      obtain ⟨rfl, -⟩ := splitOnce_eq_some_iff.mp hsplit
      exact Or.inl ⟨x, y, rfl, hname⟩
    · rw [hostOf_of_head hhead] at hhost
      split at hhost
      · next h port hsplit =>
        obtain rfl := Option.some_inj.mp hhost
        obtain ⟨rfl, hport⟩ := rsplitOnce_eq_some_iff.mp hsplit
        exact Or.inr (Or.inl ⟨h, port, rfl, hname, hport⟩)
      · next hsplit =>
        obtain rfl := Option.some_inj.mp hhost
        refine Or.inr (Or.inr ((List.mem_append.mp hname).resolve_right fun hv6 => ?_))
        rw [List.mem_singleton.mp hv6, rsplitOnce_eq_none_iff] at hsplit
        exact hsplit (by decide)
  · rintro (⟨name, rest, rfl, hname⟩ | ⟨name, port, rfl, hname, hport⟩ | hplain)
    · refine ⟨name, hname, ?_⟩
      rw [hostOf, splitOnce_eq_some_iff.mpr ⟨rfl, bracket_not_mem_loopbackName hname⟩]
      rfl
    · refine ⟨name, hname, ?_⟩
      rw [hostOf_of_head (head?_loopbackName hname _), rsplitOnce_eq_some_iff.mpr ⟨rfl, hport⟩]
    · have hname := mem_loopbackNames_of_plain hplain
      refine ⟨hostPort, hname, ?_⟩
      have hhead := head?_loopbackName hname []
      rw [List.append_nil] at hhead
      rw [hostOf_of_head hhead, rsplitOnce_eq_none_iff.mpr (plainHost_delimiter hplain (by decide))]

theorem isPort_nil : IsPort [] :=
  ⟨none, rfl, by simp⟩

theorem colon_not_mem_of_isPort {port : Str} (h : IsPort (':' :: port)) : ':' ∉ port := by
  obtain ⟨_ | p, heq, hdigits⟩ := h
  · cases heq
  · obtain rfl : port = p := (List.cons.inj heq).2
    exact fun hmem => absurd (hdigits port rfl ':' hmem) (by decide)

theorem bracketed_append (s : Str) :
    "[::1]".toList ++ s = '[' :: ("::1".toList ++ ']' :: s) := by
  have htext : "[::1]".toList = '[' :: ("::1".toList ++ [']']) := by decide
  rw [htext, List.cons_append, List.append_assoc, List.singleton_append]

theorem v6_mem_loopbackNames : "::1".toList ∈ loopbackNames :=
  List.mem_append_right _ (List.mem_singleton_self _)

/-- What passes is a loopback host, or is misread. -/
theorem hostOf_mem_iff_misread {hostPort : Str} :
    (∃ name ∈ loopbackNames, hostOf hostPort = some name) ↔
      LoopbackHostPort hostPort ∨ MisreadHost hostPort := by
  rw [hostOf_mem_iff]
  constructor
  · rintro (⟨name, rest, rfl, hname⟩ | ⟨name, port, rfl, hname, hport⟩ | hplain)
    · rcases List.mem_append.mp hname with hplain | hv6
      · exact Or.inr (Or.inl ⟨name, rest, rfl, hplain⟩)
      · obtain rfl := List.mem_singleton.mp hv6
        by_cases hrest : IsPort rest
        · refine Or.inl ⟨"[::1]".toList, rest, (bracketed_append rest).symm, ?_, hrest⟩
          exact List.mem_append_right _ (List.mem_singleton_self _)
        · exact Or.inr (Or.inr (Or.inl ⟨rest, rfl, hrest⟩))
    · rcases List.mem_append.mp hname with hplain | hv6
      · by_cases hnumber : IsPort (':' :: port)
        · exact Or.inl ⟨name, ':' :: port, rfl, List.mem_append_left _ hplain, hnumber⟩
        · exact Or.inr (Or.inr (Or.inr (Or.inr ⟨name, port, rfl, hplain, hport, hnumber⟩)))
      · obtain rfl := List.mem_singleton.mp hv6
        exact Or.inr (Or.inr (Or.inr (Or.inl ⟨port, rfl, hport⟩)))
    · exact Or.inl ⟨hostPort, [], (List.append_nil _).symm, List.mem_append_left _ hplain,
        isPort_nil⟩
  · rintro (⟨host, port, rfl, hhost, hport⟩ | ⟨name, rest, rfl, hplain⟩ | ⟨rest, rfl, -⟩ |
      ⟨port, rfl, hport⟩ | ⟨name, port, rfl, hplain, hport, -⟩)
    · rcases List.mem_append.mp hhost with hplain | hv6
      · obtain ⟨_ | p, rfl, hdigits⟩ := hport
        · exact Or.inr (Or.inr (by simpa [portPart] using hplain))
        · exact Or.inr (Or.inl ⟨host, p, rfl, mem_loopbackNames_of_plain hplain,
            colon_not_mem_of_isPort ⟨some p, rfl, hdigits⟩⟩)
      · rw [List.mem_singleton.mp hv6, bracketed_append]
        exact Or.inl ⟨_, port, rfl, v6_mem_loopbackNames⟩
    · exact Or.inl ⟨name, rest, rfl, mem_loopbackNames_of_plain hplain⟩
    · exact Or.inl ⟨_, rest, rfl, v6_mem_loopbackNames⟩
    · exact Or.inr (Or.inl ⟨_, port, rfl, v6_mem_loopbackNames, hport⟩)
    · exact Or.inr (Or.inl ⟨name, port, rfl, mem_loopbackNames_of_plain hplain, hport⟩)

theorem head?_plainHost {name : Str} (h : name ∈ plainHosts) {c : Char} (hc : isDelimiter c)
    (s : Str) : (name ++ s).head? ≠ some c := by
  obtain ⟨d, name, rfl⟩ := List.exists_cons_of_ne_nil (plainHost_ne_nil h)
  intro heq
  obtain rfl := Option.some_inj.mp heq
  exact plainHost_delimiter h hc List.mem_cons_self

/-- A loopback host is not misread. -/
theorem not_misreadHost {hostPort : Str} (h : LoopbackHostPort hostPort) :
    ¬MisreadHost hostPort := by
  obtain ⟨host, port, rfl, hhost, hport⟩ := h
  rcases List.mem_append.mp hhost with hplain | hv6
  · rintro (⟨name, rest, heq, -⟩ | ⟨rest, heq, -⟩ | ⟨p, heq, -⟩ | ⟨name, p, heq, hname, -, hnumber⟩)
    · exact head?_plainHost hplain (by decide) port (congrArg List.head? heq)
    · exact head?_plainHost hplain (by decide) port (congrArg List.head? heq)
    · exact head?_plainHost hplain (c := ':') (by decide) port (congrArg List.head? heq)
    · obtain ⟨q, rfl, hdigits⟩ := hport
      obtain ⟨-, rfl⟩ := append_portPart_inj (plainHost_delimiter hplain (by decide))
        (plainHost_delimiter hname (by decide)) (p := q) (q := some p) heq
      exact hnumber ⟨some p, rfl, hdigits⟩
  · rw [List.mem_singleton.mp hv6, bracketed_append]
    have hcolon : ']' ∉ "::1".toList := bracket_not_mem_loopbackName v6_mem_loopbackNames
    rintro (⟨name, rest, heq, hname⟩ | ⟨rest, heq, hrest⟩ | ⟨p, heq, -⟩ | ⟨name, p, heq, hname, -⟩)
    · obtain ⟨rfl, -⟩ := append_cons_inj_left hcolon
        (plainHost_delimiter hname (by decide)) (List.cons.inj heq).2
      exact plainHost_delimiter hname (c := ':') (by decide) (by decide)
    · obtain ⟨-, rfl⟩ := append_cons_inj_left hcolon hcolon (List.cons.inj heq).2
      exact hrest hport
    · exact head?_loopbackName v6_mem_loopbackNames _ (congrArg List.head? heq).symm
    · exact head?_plainHost hname (by decide) _ (congrArg List.head? heq).symm

/-! ## Authorities -/

theorem exists_userinfoPart (authority : Str) :
    ∃ userinfo, authority = userinfoPart userinfo ++ hostPortOf authority ∧
      '@' ∉ hostPortOf authority := by
  unfold hostPortOf
  split
  · next u h hsplit =>
    obtain ⟨rfl, hat⟩ := rsplitOnce_eq_some_iff.mp hsplit
    exact ⟨some u, by simp [userinfoPart], hat⟩
  · next hsplit => exact ⟨none, rfl, rsplitOnce_eq_none_iff.mp hsplit⟩

theorem hostShape_of_mem {host : Str} (h : host ∈ loopbackHosts) : HostShape host := by
  rcases List.mem_append.mp h with hplain | hv6
  · exact Or.inl fun c hc hdelimiter => plainHost_delimiter hplain hdelimiter hc
  · rw [List.mem_singleton.mp hv6]
    exact Or.inr ⟨"::1".toList, by decide, by decide, by decide⟩

/-- An authority has a loopback host if both parts of it are well formed. -/
theorem readsLoopback_iff {userinfo : Option Str} {hostPort : Str} (hat : '@' ∉ hostPort) :
    ReadsLoopback (userinfoPart userinfo ++ hostPort) ↔
      (∀ u ∈ userinfo, isUserinfo u) ∧ LoopbackHostPort hostPort := by
  constructor
  · rintro ⟨userinfo', host, port, hreading, hhost⟩
    obtain ⟨rfl, rfl⟩ := userinfoPart_append_inj hat hreading.at_not_mem hreading.text
    exact ⟨hreading.userinfo_ok, host, portPart port, rfl, hhost, port, rfl, hreading.port_ok⟩
  · rintro ⟨huserinfo, host, _, rfl, hhost, port, rfl, hport⟩
    exact ⟨userinfo, host, port, ⟨rfl, huserinfo, hostShape_of_mem hhost, hport⟩, hhost⟩

/-! ## Addresses -/

theorem http_append (rest : Str) :
    "http://".toList ++ rest = "http".toList ++ ':' :: '/' :: '/' :: rest := by
  have htext : "http://".toList = "http".toList ++ [':', '/', '/'] := by decide
  rw [htext, List.append_assoc]
  rfl

theorem http_endsScheme : ∀ c ∈ "http".toList, ¬endsScheme c := by
  have hall : "http".toList.all fun c => !endsScheme c := by decide
  simpa using hall

/-- The check reads the authority that ends where the address's does. -/
theorem isLoopbackHttpJwks_append {authority tail : Str}
    (hauthority : ∀ c ∈ authority, ¬endsAuthority c) (htail : IsTail tail) :
    isLoopbackHttpJwks ("http".toList ++ ':' :: '/' :: '/' :: (authority ++ tail)) ↔
      ∃ name ∈ loopbackNames, hostOf (hostPortOf authority) = some name := by
  have hdrop : ("http://".toList ++ (authority ++ tail)).dropPrefix? "http://".toList =
      some (authority ++ tail) := List.dropPrefix?_eq_some_iff.mpr ⟨_, rfl, beq_self_eq_true _⟩
  have hends : (fun c => decide (c ∉ ['/', '?', '#'])) = fun c => !endsAuthority c :=
    funext fun c => decide_not
  obtain ⟨htake, -⟩ := span_append (p := fun c => !endsAuthority c) (x := authority) (y := tail)
    (by simpa using hauthority) (fun c hc => by rw [htail c hc, Bool.not_true])
  rw [← http_append, isLoopbackHttpJwks, hdrop]
  simp only [hends, htake]
  cases hostOf (hostPortOf authority) with
  | none => simp
  | some host => simp

theorem isLoopbackHttpJwks_iff {url : Str} :
    isLoopbackHttpJwks url ↔ ∃ parts, split url = some parts ∧ parts.scheme = "http".toList ∧
      ∃ name ∈ loopbackNames, hostOf (hostPortOf parts.authority) = some name := by
  constructor
  · intro h
    have hsome : (url.dropPrefix? "http://".toList).isSome := by
      unfold isLoopbackHttpJwks at h
      split at h
      · cases h
      · next rest hrest => rw [hrest]; rfl
    obtain ⟨rest, hrest⟩ := Option.isSome_iff_exists.mp hsome
    obtain ⟨_, rfl, hbeq⟩ := List.dropPrefix?_eq_some_iff.mp hrest
    rw [beq_iff_eq.mp hbeq, http_append] at h ⊢
    rw [← List.takeWhile_append_dropWhile (p := fun c => !endsAuthority c) (l := rest)] at h ⊢
    exact ⟨_, split_append http_endsScheme (fun _ => not_of_mem_takeWhile) (isTail_dropWhile rest),
      rfl, (isLoopbackHttpJwks_append (fun _ => not_of_mem_takeWhile) (isTail_dropWhile rest)).mp h⟩
  · rintro ⟨parts, hsplit, hscheme, hname⟩
    obtain ⟨hurl, -, hauthority, htail⟩ := exists_of_split hsplit
    rw [hurl, hscheme]
    exact (isLoopbackHttpJwks_append hauthority htail).mpr hname

/-- The parts of an authority are those at its last `@`. -/
theorem exists_parts_iff {userinfo : Option Str} {hostPort : Str} (hat : '@' ∉ hostPort)
    {p : Option Str → Str → Prop} :
    (∃ u h, userinfoPart userinfo ++ hostPort = userinfoPart u ++ h ∧ '@' ∉ h ∧ p u h) ↔
      p userinfo hostPort := by
  constructor
  · rintro ⟨u, h, heq, hat', hp⟩
    obtain ⟨rfl, rfl⟩ := userinfoPart_append_inj hat hat' heq
    exact hp
  · intro hp
    exact ⟨userinfo, hostPort, rfl, hat, hp⟩

/-- The check agrees with the reading of an address unless the address is misread. -/
theorem loopbackExact_iff (url : Str) :
    (isLoopbackHttpJwks url ↔ LoopbackUrl url) ↔ ¬MisreadUrl url := by
  rw [isLoopbackHttpJwks_iff]
  unfold LoopbackUrl MisreadUrl
  cases split url with
  | none => simp
  | some parts =>
    simp only [Option.some_inj, exists_eq_left']
    obtain ⟨userinfo, hauthority, hat⟩ := exists_userinfoPart parts.authority
    rw [hostOf_mem_iff_misread]
    generalize hostPortOf parts.authority = hostPort at hauthority hat ⊢
    rw [hauthority, readsLoopback_iff hat, exists_parts_iff hat]
    have hlower : parts.scheme = "http".toList → parts.scheme.map Char.toLower = "http".toList := by
      intro heq
      rw [heq]
      decide
    have hmisread : LoopbackHostPort hostPort → ¬MisreadHost hostPort := not_misreadHost
    have huserinfo : (∃ u ∈ userinfo, ¬isUserinfo u) ↔ ¬∀ u ∈ userinfo, isUserinfo u := by simp
    rw [huserinfo]
    -- what is left is propositional in the scheme and the four conditions on the authority
    grind

/-- An address whose authority goes on behind the closing bracket. -/
def bracketUrl : Str :=
  "http://[::1]evil.com/".toList

theorem not_loopbackExact_bracketUrl :
    isLoopbackHttpJwks bracketUrl ∧ ¬LoopbackUrl bracketUrl := by
  refine ⟨by decide, ?_⟩
  rintro ⟨parts, hsplit, -, hreads⟩
  have htext : (split bracketUrl).map Parts.authority =
      some (userinfoPart none ++ '[' :: ("::1".toList ++ ']' :: "evil.com".toList)) := by
    decide
  rw [hsplit, Option.map_some, Option.some_inj] at htext
  rw [htext, readsLoopback_iff (by decide)] at hreads
  refine not_misreadHost hreads.2 (Or.inr (Or.inl ⟨"evil.com".toList, rfl, ?_⟩))
  rintro ⟨_ | p, heq, -⟩
  · exact absurd heq (by decide)
  · have hhead : "evil.com".toList.head? = some ':' := by rw [heq]; rfl
    exact absurd hhead (by decide)

end RelationalSdk
