namespace PimAsm.Cli

inductive FileFault
  | system (reason : String) (code : Nat)
  | notText
  deriving DecidableEq, Repr

namespace FileFault

def missing : FileFault := .system "No such file or directory" 2

def notFolder : FileFault := .system "Not a directory" 20

def isFolder : FileFault := .system "Is a directory" 21

def tooLong : FileFault := .system "File name too long" 36

def message : FileFault → String
  | .system reason code => reason ++ " (os error " ++ toString code ++ ")"
  | .notText => "stream did not contain valid UTF-8"

end FileFault

structure Files (m : Type → Type) where
  read : String → m (Except FileFault String)
  write : String → String → m (Except FileFault Unit)

def textOf (bytes : ByteArray) : Except FileFault String :=
  match String.fromUTF8? bytes with
  | some s => .ok s
  | none => .error .notText

/-- A place by its parts: from the working folder, with `..` for each folder around it, or from the root after an
empty part. -/
abbrev Place := List String

namespace Place

def up (p : Place) : Place :=
  if p = [""] then p else if p.all (· = "..") then p ++ [".."] else p.dropLast

def step (p : Place) (part : String) : Place :=
  if part = "" ∨ part = "." then p else if part = ".." then p.up else p ++ [part]

def start (path : String) : Place × List String :=
  match path.splitOn "/" with
  | "" :: rest => ([""], rest)
  | parts => ([], parts)

end Place

/-- Files by their place. The folders on the way to a file exist with it. -/
structure Folder where
  files : List (Place × ByteArray) := []

namespace Folder

def nameLimit : Nat := 255

def pathLimit : Nat := 4095

def content? (f : Folder) (p : Place) : Option ByteArray := (f.files.find? fun file => file.1 = p).map Prod.snd

/-- The working folder, those around it and the root always exist. -/
def hasFolder (f : Folder) (p : Place) : Bool :=
  p.all (· = "..") || p = [""] || f.files.any fun file => p.isPrefixOf file.1 && p.length < file.1.length

/-- The place that parts lead to. Each is looked up in what is before it, which has to be a folder. -/
def walk (f : Folder) : Place → List String → Except FileFault Place
  | p, [] => .ok p
  | p, part :: rest =>
    if f.hasFolder p then
      if part.utf8ByteSize ≤ nameLimit then f.walk (p.step part) rest else .error .tooLong
    else .error (if (f.content? p).isSome then .notFolder else .missing)

def checkPath (path : String) : Except FileFault Unit :=
  if path.utf8ByteSize ≤ pathLimit then .ok () else .error .tooLong

def read (f : Folder) (path : String) : Except FileFault String := do
  checkPath path
  let (here, parts) := Place.start path
  let p ← f.walk here parts
  match f.content? p with
  | some bytes => textOf bytes
  | none => .error (if f.hasFolder p then .isFolder else .missing)

def set (f : Folder) (p : Place) (bytes : ByteArray) : Folder :=
  ⟨f.files.filter (fun file => file.1 ≠ p) ++ [(p, bytes)]⟩

def add (f : Folder) (path : String) (bytes : ByteArray) : Folder :=
  let (here, parts) := Place.start path
  f.set (parts.foldl Place.step here) bytes

def parent (parts : List String) : List String := ((parts.reverse.dropWhile (· = "")).drop 1).reverse

/-- Replaces or creates a file. A path that ends in a slash names a folder, whatever is there; only the folder
around it is looked up. -/
def write (f : Folder) (path text : String) : Except FileFault Folder := do
  checkPath path
  let (here, parts) := Place.start path
  let isName := parts.getLast? ≠ some ""
  let p ← f.walk here (if isName then parts else parent parts ++ [""])
  if f.hasFolder p ∨ ¬ isName then .error .isFolder else .ok (f.set p text.toUTF8)

def access : Files (StateM Folder) where
  read path := fun f => (f.read path, f)
  write path text := fun f =>
    match f.write path text with
    | .ok f' => (.ok (), f')
    | .error e => (.error e, f)

end Folder

end PimAsm.Cli
