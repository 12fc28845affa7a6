import RouteScript.Documentation.Load
import Mathlib.Data.List.Basic
/-!
# Spellings of a path

Two paths with the same names lead to the same place, but a path that ends like one of a directory
never leads to a file. So the names decide what is read, if both spellings end alike.
-/
namespace RouteScript

namespace Files

/-- Whether a name leads anywhere; empty ones and single dots stay where they are. -/
def leads (name : String) : Bool := name ≠ "" && name ≠ "."

/-- The names that count when the first one counts in any case. -/
def leading : List String → List String
  | [] => []
  | first :: rest => first :: rest.filter leads

/-- Whether a path ends like one of a directory, in a slash or in a single dot. -/
def endsInside (path : String) : Bool := (split path.toList).getLast?.any (!leads ·)

theorem split_ne_nil (path : List Char) : split path ≠ [] := by
  cases path with
  | nil => simp [split]
  | cons c rest =>
    rw [split]
    split
    · simp
    · split <;> simp

theorem exists_split_concat (path : List Char) :
    ∃ parts last, split path = parts ++ [last] :=
  (List.eq_nil_or_concat' _).resolve_left (split_ne_nil path)

theorem split_append_slash (a b : List Char) : split (a ++ '/' :: b) = split a ++ split b := by
  induction a with
  | nil => rfl
  | cons c a ih =>
    rw [List.cons_append, split, split]
    split
    · rw [ih, List.cons_append]
    · obtain ⟨name, others, parts⟩ := List.exists_cons_of_ne_nil (split_ne_nil a)
      rw [ih, parts]
      rfl

/-- What a path begins with, and whether it is empty, can be told from its names. -/
theorem head?_names (path : String) :
    (names path).head? = if path.isEmpty then none else (split path.toList).head? := by
  unfold names
  split
  · rfl
  · cases split path.toList <;> rfl

theorem names_eq_leading {path : String} (given : path.isEmpty = false) :
    names path = leading (split path.toList) := by
  unfold names
  rw [given, if_neg Bool.false_ne_true]
  cases split path.toList <;> rfl

theorem names_eq_nil {path : String} : names path = [] ↔ path.isEmpty = true := by
  constructor
  · intro none
    by_contra given
    rw [Bool.not_eq_true] at given
    rw [names_eq_leading given] at none
    obtain ⟨first, rest, parts⟩ := List.exists_cons_of_ne_nil (split_ne_nil path.toList)
    rw [parts] at none
    exact absurd none (List.cons_ne_nil _ _)
  · intro empty
    rw [names, if_pos empty]

theorem isEmpty_congr {a b : String} (same : names a = names b) : a.isEmpty = b.isEmpty := by
  rw [Bool.eq_iff_iff, ← names_eq_nil, ← names_eq_nil, same]

theorem filter_leading (parts : List String) :
    (leading parts).filter leads = parts.filter leads := by
  cases parts with
  | nil => rfl
  | cons first rest => simp [leading, List.filter_cons]

theorem filter_names (path : String) :
    (names path).filter leads = (split path.toList).filter leads := by
  cases given : path.isEmpty with
  | true =>
    rw [names_eq_nil.2 given, String.isEmpty_iff.1 given]
    rfl
  | false => rw [names_eq_leading given, filter_leading]

theorem head?_split {c : Char} {rest : List Char} :
    (split (c :: rest)).head? = some "" ↔ c = '/' := by
  rw [split]
  split
  · simp [*]
  · rename_i other
    split <;> simp [other, ← String.toList_eq_nil_iff]

theorem startsWith_slash_iff (path : String) :
    path.startsWith "/" ↔ (names path).head? = some "" := by
  rw [String.startsWith_string_iff, head?_names]
  cases parts : path.toList with
  | nil => simp [String.toList_eq_nil_iff.1 parts]
  | cons c rest =>
    have given : path.isEmpty = false := by
      rw [Bool.eq_false_iff, ne_eq, String.isEmpty_iff, ← String.toList_eq_nil_iff, parts]
      exact List.cons_ne_nil _ _
    rw [given, if_neg Bool.false_ne_true, head?_split]
    simp [List.cons_prefix_cons, eq_comm]

theorem follow_of_not_directory {fs : Files} {place : Place} {parts : List String}
    (outside : fs.isDirectoryAt place = false) (some : parts ≠ []) :
    fs.follow place parts = none := by
  obtain ⟨name, rest, rfl⟩ := List.exists_cons_of_ne_nil some
  simp [follow, outside]

theorem follow_append (fs : Files) (place : Place) (parts others : List String) :
    fs.follow place (parts ++ others) =
      (fs.follow place parts).bind fun there => fs.follow there others := by
  fun_induction follow fs place parts <;> simp_all [follow]

/-- A name that stays in a directory has no effect, unless it is the last. -/
theorem follow_filter (fs : Files) (place : Place) (parts : List String) (last : String) :
    fs.follow place (parts ++ [last]) = fs.follow place (parts.filter leads ++ [last]) := by
  induction parts generalizing place with
  | nil => rfl
  | cons name rest ih =>
    cases inside : fs.isDirectoryAt place with
    | false => rw [follow_of_not_directory inside (by simp),
        follow_of_not_directory inside (by simp)]
    | true =>
      by_cases goes : leads name
      · simp only [List.cons_append, List.filter_cons, goes, if_true, follow, ih]
      · have stays : name = "" ∨ name = "." := by
          simpa [leads, Decidable.or_iff_not_imp_left] using goes
        rw [List.filter_cons, if_neg goes, ← ih, List.cons_append, follow]
        simp [inside, stays]

/-- A path that ends inside a place is one of a directory. -/
theorem isDirectoryAt_of_endsInside {fs : Files} {path : String} {place : Place}
    (ends : endsInside path) (found : fs.locate? path = some place) : fs.isDirectoryAt place := by
  obtain ⟨parts, last, spelled⟩ := exists_split_concat path.toList
  rw [endsInside, spelled] at ends
  rw [locate?, spelled, follow_append] at found
  split at found
  · cases found
  · obtain ⟨there, _, at_last⟩ := Option.bind_eq_some_iff.1 found
    have stays : last = "" ∨ last = "." := by
      simpa [leads, Decidable.or_iff_not_imp_left] using ends
    have inside : fs.isDirectoryAt there ∧ there = place := by
      simpa [follow, stays, Option.ite_none_left_eq_some] using at_last
    exact inside.2 ▸ inside.1

theorem text?_of_endsInside {fs : Files} {path : String} (ends : endsInside path) :
    fs.text? path = none := by
  cases found : fs.locate? path with
  | none => simp [text?, found]
  | some place =>
    have directory := isDirectoryAt_of_endsInside ends found
    simp only [isDirectoryAt, beq_iff_eq] at directory
    simp [text?, found, directory]

variable {a b : String}

theorem locate?_congr (fs : Files) (same : names a = names b) (left : endsInside a = false)
    (right : endsInside b = false) : fs.locate? a = fs.locate? b := by
  have follows {path : String} (place : Place) (ends : endsInside path = false) :
      fs.follow place (split path.toList) = fs.follow place ((names path).filter leads) := by
    obtain ⟨parts, last, spelled⟩ := exists_split_concat path.toList
    rw [endsInside, spelled] at ends
    have goes : leads last := by simpa using ends
    rw [filter_names, spelled, follow_filter, List.filter_append]
    simp [goes]
  have slashed : a.startsWith "/" = b.startsWith "/" := by
    rw [Bool.eq_iff_iff, startsWith_slash_iff, startsWith_slash_iff, same]
  rw [locate?, locate?, follows _ left, follows _ right, same, slashed, isEmpty_congr same]

theorem text?_congr (fs : Files) (same : names a = names b) (ends : endsInside a = endsInside b) :
    fs.text? a = fs.text? b := by
  cases left : endsInside a with
  | true => rw [text?_of_endsInside left, text?_of_endsInside (ends ▸ left)]
  | false => rw [text?, text?, locate?_congr fs same left (ends ▸ left)]

theorem endsWith_slash_iff (path : String) :
    path.endsWith "/" ↔ ∃ start, path.toList = start ++ ['/'] := by
  rw [String.endsWith_eq_endsWith_toSlice, String.Slice.endsWith_string_iff, String.copy_toSlice]
  exact exists_congr fun start => eq_comm

/-- What stands behind a path has its own names, and the path gives the others. -/
theorem exists_split_join {path : String} (given : path.isEmpty = false) (name : String) :
    ∃ parts, parts ≠ [] ∧ split (join path name).toList = parts ++ split name.toList ∧
      names path = leading parts := by
  rw [names_eq_leading given, join, given, Bool.false_or]
  split
  · rename_i slashed
    obtain ⟨start, spelled⟩ := (endsWith_slash_iff path).1 slashed
    refine ⟨split start, split_ne_nil _, ?_, ?_⟩
    · rw [String.toList_append, spelled, List.append_assoc, List.singleton_append,
        split_append_slash]
    · rw [spelled, split_append_slash]
      obtain ⟨first, rest, parts⟩ := List.exists_cons_of_ne_nil (split_ne_nil start)
      simp [parts, leading, split, leads]
  · refine ⟨split path.toList, split_ne_nil _, ?_, rfl⟩
    rw [String.toList_append, String.toList_append, List.append_assoc]
    exact split_append_slash path.toList name.toList

theorem leading_append {parts : List String} (some : parts ≠ []) (others : List String) :
    leading (parts ++ others) = leading parts ++ others.filter leads := by
  obtain ⟨first, rest, rfl⟩ := List.exists_cons_of_ne_nil some
  simp [leading]

theorem isEmpty_join {path : String} (given : path.isEmpty = false) (name : String) :
    (join path name).isEmpty = false := by
  have some : path ≠ "" := fun empty => by simp [empty] at given
  rw [join, given, Bool.false_or, Bool.eq_false_iff, ne_eq, String.isEmpty_iff]
  split <;> simp [String.append_eq_empty_iff, some]

theorem names_join {path : String} (given : path.isEmpty = false) (name : String) :
    names (join path name) = names path ++ (split name.toList).filter leads := by
  obtain ⟨parts, some, spelled, same⟩ := exists_split_join given name
  rw [names_eq_leading (isEmpty_join given name), spelled, leading_append some, same]

theorem join_of_isEmpty {path : String} (empty : path.isEmpty = true) (name : String) :
    join path name = name := by
  rw [join, empty, Bool.true_or, if_pos rfl, String.isEmpty_iff.1 empty, String.empty_append]

theorem endsInside_join (path name : String) : endsInside (join path name) = endsInside name := by
  cases given : path.isEmpty with
  | true => rw [join_of_isEmpty given]
  | false =>
    obtain ⟨parts, _, spelled, _⟩ := exists_split_join given name
    rw [endsInside, endsInside, spelled, List.getLast?_append_of_ne_nil _ (split_ne_nil _)]

theorem names_join_congr (same : names a = names b) (name : String) :
    names (join a name) = names (join b name) := by
  cases given : a.isEmpty with
  | true => rw [join_of_isEmpty given, join_of_isEmpty (isEmpty_congr same ▸ given)]
  | false => rw [names_join given, names_join (isEmpty_congr same ▸ given), same]

end Files

/-- The spelling of a source tree does not matter. -/
theorem ModuleDocs.load_congr (fs : Files) {a b : String} (same : Files.names a = Files.names b) :
    (load fs a).toOption = (load fs b).toOption := by
  have directory := Files.names_join_congr (Files.names_join_congr same "src") "modules"
  have ends (path : String) : Files.endsInside (Files.join path "modules") = false := by
    rw [Files.endsInside_join]
    decide
  have place := Files.locate?_congr fs directory (ends _) (ends _)
  have there : fs.isDirectory (Files.join (Files.join a "src") "modules") =
      fs.isDirectory (Files.join (Files.join b "src") "modules") := by
    rw [Files.isDirectory, Files.isDirectory, place]
  have inside : fs.directoriesIn (Files.join (Files.join a "src") "modules") =
      fs.directoriesIn (Files.join (Files.join b "src") "modules") := by
    rw [Files.directoriesIn, Files.directoriesIn, place]
  have text (name : String) := Files.text?_congr fs
    (Files.names_join_congr (Files.names_join_congr directory name) "README")
    (by rw [Files.endsInside_join, Files.endsInside_join])
  simp only [load, there, inside, text]
  split <;> rfl

/-- The spelling of a cookbook's path matters only where it ends. -/
theorem Cookbook.loadBy_congr (parse? : List Char → Option Cookbook) (fs : Files) {a b : String}
    (same : Files.names a = Files.names b) (ends : Files.endsInside a = Files.endsInside b) :
    loadBy parse? fs a = loadBy parse? fs b := by
  rw [loadBy, loadBy, Files.text?_congr fs same ends]

end RouteScript
