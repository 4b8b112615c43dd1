/-
  What a run needs from outside: files, and pages fetched from the network. A world is a tree of
  files and the page that a fetch receives; a run in a world is a function of it.
-/
import DocTypes.Storage.Tree

namespace DocTypes

/-- Files and fetching in a monad. -/
class Storage (m : Type → Type) where
  isFile (path : Text) : m Bool
  read (path : Text) : m (Except Fault ByteArray)
  /-- Makes the directory and the directories above it that are missing. -/
  makeDirs (path : Text) : m (Except Fault Unit)
  /-- Writes a file: makes it, or replaces its content. -/
  write (path : Text) (content : ByteArray) : m (Except Fault Unit)
  /-- The page at the address, unless the fetch fails or takes longer than so many seconds. -/
  fetch (url : String) (seconds : Nat) : m (Option String)

/-- A tree of files, and the page that a fetch receives, if it receives one. -/
structure World where
  tree : Tree
  page : Option String := none

namespace World

/-- Runs an operation on the tree. -/
def onTree {α : Type} (f : Tree → α × Tree) : StateM World α := fun w =>
  let (a, t) := f w.tree
  (a, { w with tree := t })

instance : Storage (StateM World) where
  isFile path := onTree fun t => (t.isFile path, t)
  read path := onTree fun t => (t.read path, t)
  makeDirs path := onTree fun t => t.makeDirs path
  write path content := onTree fun t => t.write path content
  fetch _ _ := fun w => (w.page, w)

end World

end DocTypes
