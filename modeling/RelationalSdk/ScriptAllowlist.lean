import RelationalSdk.PoolRegistration
import RelationalSdk.UriSyntax

/-!
# Where an allowed address leads

`validateUrl` compares the text between `https://` and the first slash with the allowed host and the
next segment with the allowed owners. The first comparison leaves no room for a user, a port or
another host. The second looks at the first segment as it is written, and a server that removes the
dot segments of a path may arrive at another one : `/relational-network/../evil/x` is `/evil/x`.

`contained_iff` : an accepted address stays with an allowed owner exactly if the walk along its
segments enters an allowed owner when it stands at the root for the last time.
-/

namespace RelationalSdk

open Text Uri

/-- The address is one of the allowed host, which is all its authority can be read as, and its path
without dot segments starts with an allowed owner. -/
def Contained (url : Str) : Prop :=
  ∃ parts, split url = some parts ∧ parts.scheme = "https".toList ∧
    (∀ userinfo host port, Reading parts.authority userinfo host port ↔
      userinfo = none ∧ host = allowedHost.toList ∧ port = none) ∧
    ∃ owner ∈ allowedOwners, (resolve (segments parts.path)).head? = some owner.toList

/-- The path of an address, up to its query. -/
def pathOf (url : Str) : Str :=
  match split url with
  | some parts => parts.path
  | none => []

theorem reading_allowedHost_iff {userinfo port : Option Str} {host : Str} :
    Reading allowedHost.toList userinfo host port ↔
      userinfo = none ∧ host = allowedHost.toList ∧ port = none := by
  have hplain : allowedHost.toList.all fun c => !isDelimiter c := by decide
  have hreading : Reading allowedHost.toList none allowedHost.toList none :=
    ⟨(List.append_nil _).symm, by simp, Or.inl (by simpa using hplain), by simp⟩
  refine ⟨fun h => h.unique hreading, ?_⟩
  rintro ⟨rfl, rfl, rfl⟩
  exact hreading

/-- An accepted address is on the allowed host. -/
theorem split_of_validateUrl {url : Str} (h : validateUrl url = .ok ()) :
    ∃ parts, split url = some parts ∧ parts.scheme = "https".toList ∧
      parts.authority = allowedHost.toList := by
  obtain ⟨rest, rfl, -⟩ := validateUrl_eq_ok_iff.mp h
  have hscheme : "https".toList.all fun c => !endsScheme c := by decide
  have hhost : allowedHost.toList.all fun c => !endsAuthority c := by decide
  have htext : "https://raw.githubusercontent.com/relational-network".toList ++ rest =
      "https".toList ++ ':' :: '/' :: '/' ::
        (allowedHost.toList ++ ('/' :: "relational-network".toList ++ rest)) := by
    have hconst : "https://raw.githubusercontent.com/relational-network".toList =
        "https".toList ++ ':' :: '/' :: '/' ::
          (allowedHost.toList ++ '/' :: "relational-network".toList) := by decide +kernel
    rw [hconst]
    simp only [List.append_assoc, List.cons_append]
  have htail : IsTail ('/' :: "relational-network".toList ++ rest) := by
    rintro _ ⟨⟩
    decide
  rw [htext]
  exact ⟨_, split_append (by simpa using hscheme) (by simpa using hhost) htail, rfl, rfl⟩

theorem owner_named {owner : String} (h : owner ∈ allowedOwners) :
    owner.toList ≠ [] ∧ owner.toList ≠ dot ∧ owner.toList ≠ dotDot := by
  obtain rfl : owner = "relational-network" := by simpa [allowedOwners] using h
  decide

/-- An accepted address stays with an allowed owner exactly if its segments enter one at the root
for the last time. -/
theorem contained_iff {url : Str} (h : validateUrl url = .ok ()) :
    Contained url ↔ ∃ owner ∈ allowedOwners, Enters 0 owner.toList (segments (pathOf url)) := by
  obtain ⟨parts, hsplit, hscheme, hauthority⟩ := split_of_validateUrl h
  have hpath : pathOf url = parts.path := by rw [pathOf, hsplit]
  have hreading : ∀ userinfo host port, Reading parts.authority userinfo host port ↔
      userinfo = none ∧ host = allowedHost.toList ∧ port = none := by
    intro userinfo host port
    rw [hauthority]
    exact reading_allowedHost_iff
  have hhead : ∀ owner ∈ allowedOwners, (resolve (segments parts.path)).head? = some owner.toList ↔
      Enters 0 owner.toList (segments parts.path) := by
    intro owner howner
    obtain ⟨hne, hdot, hdotDot⟩ := owner_named howner
    exact head?_resolve_eq_some_iff hne hdot hdotDot
  rw [hpath]
  constructor
  · rintro ⟨parts', hsplit', -, -, owner, howner, hfirst⟩
    obtain rfl := Option.some_inj.mp (hsplit.symm.trans hsplit')
    exact ⟨owner, howner, (hhead owner howner).mp hfirst⟩
  · rintro ⟨owner, howner, henters⟩
    exact ⟨parts, hsplit, hscheme, hreading, owner, howner, (hhead owner howner).mpr henters⟩

/-- An address that comes back to the allowed owner. -/
def returningUrl : Str :=
  "https://raw.githubusercontent.com/relational-network/../relational-network/x/../mean".toList

/-- Its segments enter the owner twice, and the second time they stay. -/
theorem contained_sample : validateUrl returningUrl = .ok () ∧ Contained returningUrl := by
  have hvalid : validateUrl returningUrl = .ok () := by decide +kernel
  have hpath : segments (pathOf returningUrl) =
      ["relational-network".toList, dotDot, "relational-network".toList, ['x'], dotDot,
        "mean".toList] := by decide +kernel
  refine ⟨hvalid, (contained_iff hvalid).mpr ⟨"relational-network", by decide, ?_⟩⟩
  rw [hpath]
  exact ⟨["relational-network".toList, dotDot], [['x'], dotDot, "mean".toList], rfl,
    by decide, by decide⟩

/-- An address that leaves the allowed owner by a dot segment. -/
def escapingUrl : Str :=
  "https://raw.githubusercontent.com/relational-network/../evil/x/main/y".toList

theorem not_contained_escapingUrl :
    validateUrl escapingUrl = .ok () ∧ ¬Contained escapingUrl := by
  refine ⟨by decide +kernel, ?_⟩
  rintro ⟨parts, hsplit, -, -, owner, howner, hfirst⟩
  have hevil : (split escapingUrl).map (fun p => (resolve (segments p.path)).head?) =
      some (some "evil".toList) := by decide +kernel
  rw [hsplit, Option.map_some, hfirst, Option.some_inj, Option.some_inj] at hevil
  obtain rfl : owner = "relational-network" := by simpa [allowedOwners] using howner
  exact absurd hevil (by decide)

end RelationalSdk
