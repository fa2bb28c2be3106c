import RelationalSdk.Text

/-!
# Paths and the files they lead to

A path is a text. `join` appends a path to another one, as `PathBuf::join` does : an absolute
path takes the place of the one it is joined to. A `FileTree` holds files and directories under
the names that lead to each from the root, and opening a path walks its components through the
tree : an empty component and `.` stay where they are, `..` goes to the parent, and everything
on the way has to be a directory. There are no symbolic links.

`opens_append_name` : a path that ends in a plain name opens exactly if what stands before the
name leads to a directory with an entry of that name.
-/

namespace FilePaths

open Text

/-- Files and directories. -/
inductive Kind where
  | file
  | dir
  deriving DecidableEq

/-- What stands under the names that lead there from the root. -/
structure FileTree where
  kind : List Str → Option Kind
  root : kind [] = some .dir
  /-- Every entry is in a directory. -/
  parent : ∀ p n, (kind (p ++ [n])).isSome → kind p = some .dir

/-- `PathBuf::join`. -/
def join (path rest : Str) : Str :=
  if rest.head? = some '/' then rest
  else if path = [] ∨ path.getLast? = some '/' then path ++ rest
  else path ++ '/' :: rest

/-- The components of a path, the empty ones included. -/
def components (path : Str) : List Str :=
  path.splitOn '/'

/-- A name that is an entry of a directory, and not a way of getting somewhere else. -/
structure IsName (n : Str) : Prop where
  ne_nil : n ≠ []
  ne_dot : n ≠ ['.']
  ne_dotDot : n ≠ ['.', '.']
  no_slash : '/' ∉ n

namespace FileTree

variable (t : FileTree)

/-- Follow the components from a place in the tree. -/
def walk : List Str → List Str → Option (List Str)
  | p, [] => some p
  | p, n :: ns =>
    if t.kind p ≠ some .dir then none
    else if n = [] ∨ n = ['.'] then walk p ns
    else if n = ['.', '.'] then walk p.dropLast ns
    else if (t.kind (p ++ [n])).isSome then walk (p ++ [n]) ns
    else none

/-- Where a path leads, from the working directory if it is relative. -/
def locate (cwd : List Str) (path : Str) : Option (List Str) :=
  if path = [] then none
  else t.walk (if path.head? = some '/' then [] else cwd) (components path)

/-- Whether a path can be opened, be it a file or a directory. -/
def opens (cwd : List Str) (path : Str) : Bool :=
  (t.locate cwd path).isSome

variable {t}

theorem walk_append (p : List Str) (ns ms : List Str) :
    t.walk p (ns ++ ms) = (t.walk p ns).bind fun q => t.walk q ms := by
  induction ns generalizing p with
  | nil => rfl
  | cons n ns ih =>
    rw [List.cons_append, walk, walk]
    split_ifs
    · rfl
    · exact ih p
    · exact ih p.dropLast
    · exact ih (p ++ [n])
    · rfl

/-- A plain name leads to the entry of that name. -/
theorem walk_name {n : Str} (hn : IsName n) (p : List Str) :
    t.walk p [n] = if (t.kind (p ++ [n])).isSome then some (p ++ [n]) else none := by
  rw [walk, if_neg (not_or.mpr ⟨hn.ne_nil, hn.ne_dot⟩), if_neg hn.ne_dotDot]
  split_ifs with hdir hentry
  · exact absurd (t.parent p n hentry) hdir
  · rfl
  · rfl
  · rfl

theorem components_append (path rest : Str) :
    components (path ++ '/' :: rest) = components path ++ components rest :=
  List.splitOnP_append_cons path rest (beq_self_eq_true '/')

theorem components_of_isName {n : Str} (hn : IsName n) : components n = [n] :=
  List.splitOn_eq_singleton hn.no_slash

/-- A path that ends in a plain name. -/
theorem opens_append_name {cwd : List Str} {path n : Str} (hpath : path ≠ []) (hn : IsName n) :
    t.opens cwd (path ++ '/' :: n) ↔
      ∃ p, t.locate cwd path = some p ∧ (t.kind (p ++ [n])).isSome := by
  have hhead : (path ++ '/' :: n).head? = path.head? := List.head?_append_of_ne_nil path hpath
  have hne : path ++ '/' :: n ≠ [] := by simp
  have hlocate : t.locate cwd (path ++ '/' :: n) =
      (t.locate cwd path).bind fun p => t.walk p [n] := by
    rw [locate, locate, if_neg hne, if_neg hpath, hhead, components_append,
      components_of_isName hn, walk_append]
  rw [opens, hlocate]
  cases t.locate cwd path with
  | none => simp
  | some p =>
    rw [Option.bind_some, walk_name hn]
    split_ifs with hentry <;> simp [hentry]

/-! ## A tree from its entries -/

/-- What a list of entries has under some names, the root being a directory. -/
def lookup (entries : List (List Str × Kind)) (p : List Str) : Option Kind :=
  if p = [] then some .dir else (entries.find? fun e => e.1 = p).map Prod.snd

theorem isSome_lookup_iff {entries : List (List Str × Kind)} {p : List Str} (hp : p ≠ []) :
    (lookup entries p).isSome ↔ p ∈ entries.map Prod.fst := by
  rw [lookup, if_neg hp, Option.isSome_map, List.find?_isSome]
  simp

/-- The tree with the given entries, each of them in a directory. -/
def ofEntries (entries : List (List Str × Kind))
    (h : ∀ e ∈ entries, lookup entries e.1.dropLast = some .dir) : FileTree where
  kind := lookup entries
  root := rfl
  parent p n hentry := by
    rw [lookup, if_neg (by simp), Option.isSome_map] at hentry
    obtain ⟨e, he⟩ := Option.isSome_iff_exists.mp hentry
    have hkey : e.1 = p ++ [n] := by simpa using List.find?_some he
    have hdir := h e (List.mem_of_find?_eq_some he)
    rwa [hkey, List.dropLast_concat] at hdir

end FileTree

end FilePaths
