import RelationalSdk.Grants
import RelationalSdk.HexIds

/-!
# Requests for digital rights

A pool is created with a list of DRTs. `validate_drt_requests` checks the list and turns each
request into a `ResolvedDrt` with the bytes of its hash. `append` is the receipt of an upload : it
has no script. Every other DRT has the address of a script and a hash that is not zero.

`validateDrtRequests_ok` says all that later modules use of an accepted list : request by request
what was resolved (`Resolves`), and that no name occurs twice.
-/

namespace RelationalSdk

open Text IndexLoops

/-- `APPEND_DRT_NAME`. -/
def appendDrtName : Str :=
  "append".toList

/-- `MAX_CODE_REPO_URL_LEN`. -/
def maxCodeRepoUrlLen : Nat := 256

/-- `MAX_DRTS_PER_POOL`. -/
def maxDrtsPerPool : Nat := 8

/-- `MAX_SUPPLY`. -/
def maxSupply : UInt64 := 1000000000

/-- One DRT to register inside a pool. -/
structure DrtRequest where
  name : Str
  supply : UInt64
  codeRepoUrl : Option Str
  codeHashHex : Option Str

/-- A request after validation. -/
structure ResolvedDrt where
  name : Str
  supply : UInt64
  codeRepoUrl : Str
  codeHash : List.Vector UInt8 32
  deriving DecidableEq

/-- An array of zeros. -/
def zeroHash : List.Vector UInt8 32 :=
  .replicate 32 0

/-! ## Validation -/

section Results

variable {α β : Type}

/-- A 400 response. -/
def reject (msg : String) : Exec (Except ApiError α) :=
  .ok (.error (.badRequest msg))

/-- `x?`, and then `next`. -/
def tryThen (x : Exec (Except ApiError α)) (next : α → Exec (Except ApiError β)) :
    Exec (Except ApiError β) :=
  match x with
  | .error fault => .error fault
  | .ok (.error e) => .ok (.error e)
  | .ok (.ok a) => next a

theorem tryThen_eq_ok_iff {x : Exec (Except ApiError α)} {next : α → Exec (Except ApiError β)}
    {b : β} : tryThen x next = .ok (.ok b) ↔ ∃ a, x = .ok (.ok a) ∧ next a = .ok (.ok b) := by
  rcases x with fault | e | a <;> simp [tryThen]

theorem reject_ne_ok {msg : String} {a : α} : reject msg ≠ .ok (.ok a) := by
  simp [reject]

/-- A check that was passed. -/
theorem ite_reject_eq_ok_iff {p : Prop} [Decidable p] {msg : String}
    {x : Exec (Except ApiError α)} {a : α} :
    (if p then reject msg else x) = .ok (.ok a) ↔ ¬p ∧ x = .ok (.ok a) := by
  split_ifs with hp
  · exact iff_of_false reject_ne_ok fun h => h.1 hp
  · exact (and_iff_right hp).symm

end Results

/-- The address and the hash of the `append` DRT. -/
def resolveAppend (url hashHex : Str) : Exec (Except ApiError (Str × List.Vector UInt8 32)) :=
  if url ≠ [] then reject "append DRT must not include code_repo_url"
  else
    tryThen (parseCodeHash hashHex) fun parsed =>
      if parsed ≠ zeroHash then reject "append DRT must use a zeroed code_hash"
      else .ok (.ok ([], zeroHash))

/-- The address and the hash of any other DRT. -/
def resolveScript (name : String) (url hashHex : Str) :
    Exec (Except ApiError (Str × List.Vector UInt8 32)) :=
  if url = [] then reject s!"DRT '{name}' requires a code_repo_url"
  else if len (trim url) ≠ len url then
    reject s!"DRT '{name}' code_repo_url has leading/trailing whitespace"
  else if maxCodeRepoUrlLen < len url then
    reject s!"DRT '{name}' code_repo_url exceeds maximum {maxCodeRepoUrlLen} bytes"
  else
    tryThen (parseCodeHash hashHex) fun parsed =>
      if parsed = zeroHash then reject s!"DRT '{name}' requires a non-zero code_hash"
      else .ok (.ok (url, parsed))

/-- The body of the loop of `validate_drt_requests`, with the names seen before. -/
def resolveDrt (allowAppend : Bool) (seen : List Str) (d : DrtRequest) :
    Exec (Except ApiError ResolvedDrt) :=
  let name := String.ofList d.name
  tryThen (.ok (validateDrtName d.name)) fun () =>
    if d.name ∈ seen then reject s!"duplicate DRT '{name}'"
    else if ¬allowAppend ∧ d.name = appendDrtName then
      reject "the 'append' DRT is not allowed on IOB ERP pools"
    else if d.supply = 0 then reject s!"DRT '{name}' supply must be greater than 0"
    else if maxSupply < d.supply then
      reject s!"DRT '{name}' supply exceeds maximum ({maxSupply})"
    else
      let url := d.codeRepoUrl.getD []
      let hashHex := d.codeHashHex.getD []
      tryThen
        (if d.name = appendDrtName then resolveAppend url hashHex
          else resolveScript name url hashHex)
        fun (finalUrl, finalHash) => .ok (.ok ⟨d.name, d.supply, finalUrl, finalHash⟩)

/-- The loop of `validate_drt_requests`. -/
def resolveDrts (allowAppend : Bool) :
    List Str → List DrtRequest → Exec (Except ApiError (List ResolvedDrt))
  | _, [] => .ok (.ok [])
  | seen, d :: drts =>
    tryThen (resolveDrt allowAppend seen d) fun r =>
      tryThen (resolveDrts allowAppend (d.name :: seen) drts) fun resolved =>
        .ok (.ok (r :: resolved))

/-- Validate and resolve a list of DRT requests. -/
def validateDrtRequests (drts : List DrtRequest) (allowAppend : Bool) :
    Exec (Except ApiError (List ResolvedDrt)) :=
  if drts = [] then reject "at least one DRT is required"
  else if maxDrtsPerPool < drts.length then reject s!"too many DRTs (max {maxDrtsPerPool})"
  else resolveDrts allowAppend [] drts

/-! ## What is accepted -/

/-- What an accepted request is resolved to. -/
structure Resolves (d : DrtRequest) (r : ResolvedDrt) : Prop where
  name_eq : r.name = d.name
  supply_eq : r.supply = d.supply
  supply_pos : 0 < r.supply
  supply_le : r.supply ≤ maxSupply
  len_url_le : len r.codeRepoUrl ≤ maxCodeRepoUrlLen
  append : d.name = appendDrtName → r.codeRepoUrl = [] ∧ r.codeHash = zeroHash
  script : d.name ≠ appendDrtName → d.codeRepoUrl = some r.codeRepoUrl ∧ r.codeHash ≠ zeroHash

theorem resolveAppend_ok {url hashHex : Str} {p : Str × List.Vector UInt8 32}
    (h : resolveAppend url hashHex = .ok (.ok p)) : p = ([], zeroHash) := by
  obtain ⟨-, h⟩ := ite_reject_eq_ok_iff.mp h
  obtain ⟨parsed, -, h⟩ := tryThen_eq_ok_iff.mp h
  obtain ⟨-, h⟩ := ite_reject_eq_ok_iff.mp h
  exact (Except.ok.inj (Except.ok.inj h)).symm

theorem resolveScript_ok {name : String} {url hashHex : Str} {p : Str × List.Vector UInt8 32}
    (h : resolveScript name url hashHex = .ok (.ok p)) :
    url ≠ [] ∧ len url ≤ maxCodeRepoUrlLen ∧ p.1 = url ∧ p.2 ≠ zeroHash := by
  obtain ⟨hurl, h⟩ := ite_reject_eq_ok_iff.mp h
  obtain ⟨-, h⟩ := ite_reject_eq_ok_iff.mp h
  obtain ⟨hlen, h⟩ := ite_reject_eq_ok_iff.mp h
  obtain ⟨parsed, -, h⟩ := tryThen_eq_ok_iff.mp h
  obtain ⟨hparsed, h⟩ := ite_reject_eq_ok_iff.mp h
  obtain rfl := Except.ok.inj (Except.ok.inj h)
  exact ⟨hurl, not_lt.mp hlen, rfl, hparsed⟩

theorem resolveDrt_ok {allowAppend : Bool} {seen : List Str} {d : DrtRequest} {r : ResolvedDrt}
    (h : resolveDrt allowAppend seen d = .ok (.ok r)) : Resolves d r ∧ d.name ∉ seen := by
  obtain ⟨⟨⟩, -, h⟩ := tryThen_eq_ok_iff.mp h
  obtain ⟨hseen, h⟩ := ite_reject_eq_ok_iff.mp h
  obtain ⟨-, h⟩ := ite_reject_eq_ok_iff.mp h
  obtain ⟨hzero, h⟩ := ite_reject_eq_ok_iff.mp h
  obtain ⟨hmax, h⟩ := ite_reject_eq_ok_iff.mp h
  obtain ⟨p, hp, h⟩ := tryThen_eq_ok_iff.mp h
  obtain rfl := Except.ok.inj (Except.ok.inj h)
  have hpos : 0 < d.supply := UInt64.pos_iff_ne_zero.mpr hzero
  have hle : d.supply ≤ maxSupply := UInt64.not_lt.mp hmax
  split_ifs at hp with happend
  · obtain rfl := resolveAppend_ok hp
    exact ⟨⟨rfl, rfl, hpos, hle, Nat.zero_le _, fun _ => ⟨rfl, rfl⟩,
      fun hname => absurd happend hname⟩, hseen⟩
  · obtain ⟨hurl, hlen, hfst, hsnd⟩ := resolveScript_ok hp
    refine ⟨⟨rfl, rfl, hpos, hle, hfst ▸ hlen, fun hname => absurd hname happend,
      fun _ => ⟨?_, hsnd⟩⟩, hseen⟩
    cases hsome : d.codeRepoUrl with
    | none =>
      rw [hsome] at hurl
      exact absurd rfl hurl
    | some url =>
      rw [hsome] at hfst
      exact congrArg some hfst.symm

/-- The loop resolves request by request, and no name occurs twice or was seen before. -/
theorem resolveDrts_ok {allowAppend : Bool} : ∀ {reqs : List DrtRequest} {seen : List Str}
    {drts : List ResolvedDrt}, resolveDrts allowAppend seen reqs = .ok (.ok drts) →
      List.Forall₂ Resolves reqs drts ∧ (reqs.map (·.name)).Nodup ∧ ∀ d ∈ reqs, d.name ∉ seen
  | [], _, _, h => by
    obtain rfl := Except.ok.inj (Except.ok.inj h)
    exact ⟨.nil, .nil, by simp⟩
  | d :: reqs, seen, drts, h => by
    obtain ⟨r, hr, h⟩ := tryThen_eq_ok_iff.mp h
    obtain ⟨resolved, hrest, h⟩ := tryThen_eq_ok_iff.mp h
    obtain rfl := Except.ok.inj (Except.ok.inj h)
    obtain ⟨hresolves, hseen⟩ := resolveDrt_ok hr
    obtain ⟨hall, hnodup, hnot⟩ := resolveDrts_ok hrest
    refine ⟨.cons hresolves hall, ?_, ?_⟩
    · rw [List.map_cons, List.nodup_cons]
      refine ⟨?_, hnodup⟩
      intro hmem
      obtain ⟨d', hd', heq⟩ := List.mem_map.mp hmem
      exact hnot d' hd' (heq ▸ List.mem_cons_self)
    · intro d' hd'
      rcases List.mem_cons.mp hd' with rfl | hd'
      · exact hseen
      · exact fun hmem => hnot d' hd' (List.mem_cons_of_mem _ hmem)

/-- How many requests an accepted list has. -/
theorem length_of_validateDrtRequests_ok {reqs : List DrtRequest} {allowAppend : Bool}
    {drts : List ResolvedDrt} (h : validateDrtRequests reqs allowAppend = .ok (.ok drts)) :
    reqs ≠ [] ∧ reqs.length ≤ maxDrtsPerPool := by
  obtain ⟨hne, h⟩ := ite_reject_eq_ok_iff.mp h
  obtain ⟨hmax, -⟩ := ite_reject_eq_ok_iff.mp h
  exact ⟨hne, not_lt.mp hmax⟩

theorem validateDrtRequests_ok {reqs : List DrtRequest} {allowAppend : Bool}
    {drts : List ResolvedDrt} (h : validateDrtRequests reqs allowAppend = .ok (.ok drts)) :
    List.Forall₂ Resolves reqs drts ∧ (reqs.map (·.name)).Nodup := by
  obtain ⟨-, h⟩ := ite_reject_eq_ok_iff.mp h
  obtain ⟨-, h⟩ := ite_reject_eq_ok_iff.mp h
  obtain ⟨hall, hnodup, -⟩ := resolveDrts_ok h
  exact ⟨hall, hnodup⟩

end RelationalSdk
