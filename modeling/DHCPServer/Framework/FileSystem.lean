import Mathlib.Data.List.Basic

namespace DHCPServer

/-- A file as the names on the way to it from the root. The way of a relative path starts with `.`,
the working directory. -/
abbrev FileId := List (List Char)

/-- Following one name of a path. The directory above the root is the root. -/
def FileId.follow (dir : FileId) (name : List Char) : FileId :=
  if name = [] ∨ name = ['.'] then dir
  else if name = ['.', '.'] then
    if dir.getLast? = some ['.'] ∨ dir.getLast? = some ['.', '.'] then dir ++ [name]
    else dir.dropLast
  else dir ++ [name]

/-- The file that a path leads to, where all its directories exist and none is a link. -/
def FileId.ofPath (path : List Char) : FileId :=
  (path.splitOn '/').foldl FileId.follow (if path.head? = some '/' then [] else [['.']])

/-- The text of the files that exist. -/
abbrev FileSystem := FileId → Option (List Char)

namespace FileSystem

/-- The text of the file that a path leads to. -/
def read (fs : FileSystem) (path : List Char) : Option (List Char) := fs (FileId.ofPath path)

/-- The file system with other text in the file that a path leads to. -/
def set (fs : FileSystem) (path text : List Char) : FileSystem :=
  fun file => if file = FileId.ofPath path then some text else fs file

variable {fs : FileSystem} {path text : List Char} {file : FileId}

@[simp] theorem read_set : (fs.set path text).read path = some text := if_pos rfl

theorem set_other (h : file ≠ FileId.ofPath path) : fs.set path text file = fs file := if_neg h

theorem set_isSome (h : (fs file).isSome) : (fs.set path text file).isSome := by
  unfold set
  split
  · rfl
  · exact h

end FileSystem

namespace FileId

variable {dir name : List Char}

/-- A path is followed name by name. -/
theorem ofPath_append (hdir : dir ≠ []) (hname : '/' ∉ name) :
    ofPath (dir ++ '/' :: name) = (ofPath dir).follow name := by
  have hhead : (dir ++ '/' :: name).head? = dir.head? := List.head?_append_of_ne_nil _ hdir
  unfold ofPath
  rw [hhead, List.splitOn_append_cons_self, List.splitOn_eq_singleton hname, List.foldl_append]
  rfl

/-- A name that is not one of the two special ones leads a directory down. -/
theorem follow_eq (file : FileId) (hnil : name ≠ []) (hdot : name ≠ ['.'])
    (hdots : name ≠ ['.', '.']) : file.follow name = file ++ [name] := by
  rw [follow, if_neg (not_or.mpr ⟨hnil, hdot⟩), if_neg hdots]

end FileId

end DHCPServer
