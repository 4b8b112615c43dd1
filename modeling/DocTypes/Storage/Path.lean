/-
  Paths as texts: their names, and the path of the directory that holds what a path names. The
  text of a path is kept as given, since messages show it.
-/
import DocTypes.Text.Basic

namespace DocTypes.Path

open Text

/-- Drops the slashes and the `.` names at the end of a reversed path, except where nothing else
is left. -/
def dropEnd : Text → Text
  | ['/'] => ['/']
  | '/' :: r => dropEnd r
  | '.' :: '/' :: r => dropEnd ('/' :: r)
  | r => r
termination_by r => r.length

theorem dropEnd_length_le (r : Text) : (dropEnd r).length ≤ r.length := by
  fun_induction dropEnd r with
  | case1 => exact Nat.le_refl _
  | case2 r _ ih => simp; omega
  | case3 r ih => simp at ih ⊢; omega
  | case4 => exact Nat.le_refl _

/-- The path of the directory that holds what the path names; it is empty where that is the
working directory. The root and the empty path name nothing in a directory. -/
def parent? (path : Text) : Option Text :=
  match dropEnd path.reverse with
  | [] | ['/'] => none
  | _ :: r => some (dropEnd (r.dropWhile (· ≠ '/'))).reverse

theorem parent?_length_lt {path p : Text} (h : parent? path = some p) : p.length < path.length := by
  have hd := dropEnd_length_le path.reverse
  simp only [parent?] at h
  split at h
  · simp at h
  · simp at h
  · next r _ hr =>
    simp only [Option.some.injEq] at h
    have h1 := dropEnd_length_le (r.dropWhile (· ≠ '/'))
    have h2 := (List.dropWhile_suffix (l := r) (· ≠ '/')).length_le
    rw [hr] at hd
    simp only [List.length_cons, List.length_reverse] at hd
    rw [← h, List.length_reverse]
    omega

/-- Does the path start at the root? -/
def isAbsolute (path : Text) : Bool := path.head? == some '/'

/-- Does a slash end the path, so that it can only name a directory? -/
def endsInSlash (path : Text) : Bool := path.getLast? == some '/'

/-- Is the path too long to be used? With the byte that ends it, it has to fit in 4096 bytes. -/
def isTooLong (path : Text) : Bool := 4096 ≤ (String.ofList path).utf8ByteSize

/-- The names of a path in order. -/
def names (path : Text) : List Text := (splitOn '/' path).filter (!·.isEmpty)

end DocTypes.Path
