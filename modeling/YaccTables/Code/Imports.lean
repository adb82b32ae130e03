import YaccTables.Code.Doc.Comment
import YaccTables.Code.Literal
import YaccTables.Code.Reading.Files

/-!
# The order of imports

Packages that are imported on successive lines between brackets are put in the order of their paths,
and those named twice are left out. What stood in the file where they go gives them their new
places, and the comments on their lines move with them.
-/

namespace YaccTables.Code

namespace Doc

/-- The lines of a comment without its marks; a directive has none. -/
def plainLines (c : Comment) : List Bytes :=
  let text := c.text.drop 2
  let isKept := c.isBlock || text.isEmpty || text.head? == some space || !isDirective text
  let inside := if c.isBlock then text.dropLast.dropLast else withoutStart [space] text
  if isKept then (lines inside).map trimLineEnd else []
where
  /-- A line without the blanks, tabs and carriage returns that it ends with. -/
  trimLineEnd (line : Bytes) : Bytes :=
    (line.reverse.dropWhile fun b => [space, tab, lineFeed, carriageReturn].contains b).reverse

/-- Lines without empty ones at the start, and with no two empty ones together. -/
def withoutGaps : Bool → List Bytes → List Bytes
  | _, [] => []
  | afterText, line :: rest =>
    if !line.isEmpty || afterText then line :: withoutGaps (!line.isEmpty) rest
    else withoutGaps afterText rest

/-- What comments say. -/
def plainText (comments : CommentGroup) : Bytes :=
  let kept := withoutGaps false (comments.flatMap plainLines)
  joinLines (if kept.getLast?.any (!·.isEmpty) then kept ++ [[]] else kept)

end Doc

/-! ## Packages -/

namespace PackageSpec

/-- The path of a package. -/
def pathText (p : PackageSpec) : Bytes := textValue p.path.text

/-- The other name of a package, or nothing. -/
def nameText (p : PackageSpec) : Bytes := (p.name.map Ident.name).getD []

/-- What is remarked on a package. -/
def remarkText (p : PackageSpec) : Bytes := (p.remark.map Doc.plainText).getD []

/-- Whether a package comes before another or at the same place: by path, then by name, then by
remark. -/
def precedes (p q : PackageSpec) : Bool :=
  let key (p : PackageSpec) := [p.pathText, p.nameText, p.remarkText]
  (((key p).zip (key q)).find? fun (a, b) => a != b).all fun (a, b) => decide (a < b)

/-- Whether a package can be left out before another. -/
def repeats (p q : PackageSpec) : Bool :=
  q.pathText == p.pathText && q.nameText == p.nameText && p.remark.isNone

/-- A package at another place. -/
def moveTo (p : PackageSpec) (start stop : Pos) : PackageSpec :=
  { p with
    name := p.name.map fun i => { i with start }
    path := { p.path with start, stop := start + p.path.text.length }
    ending := stop }

end PackageSpec

/-! ## Comments -/

/-- A group of comments that belongs to a package, and whether it stands before it. -/
structure Attached where
  group : CommentGroup
  isBefore : Bool

/-- Comments at another place, all of it together. -/
def CommentGroup.moveTo (g : CommentGroup) (start : Pos) : CommentGroup :=
  g.map fun c => { c with start }

/-- The package that a group of comments belongs to: the last that starts before the group, or the
next one if the group is on the line below its start, or the first. `index` is that of the group
before. -/
def ownerOf (lines : LineTable) (starts : Array Pos) (index : Nat) (g : CommentGroup) :
    Nat × Bool :=
  let at' (i : Nat) : Pos := starts[i]?.getD 0
  let skipped := ((starts.toList.drop (index + 1)).takeWhile (· ≤ g.start)).length
  let last := index + skipped
  if last = 0 && g.start < at' 0 then (0, true)
  else if last + 1 < starts.size && lines.line (at' last) + 1 == lines.line g.start then
    (last + 1, true)
  else (last, false)

/-- The groups of comments with the packages that they belong to. -/
def owners (lines : LineTable) (starts : Array Pos) :
    Nat → List CommentGroup → List (Nat × Attached)
  | _, [] => []
  | index, g :: rest =>
    let (owner, isBefore) := ownerOf lines starts index g
    (owner, ⟨g, isBefore⟩) :: owners lines starts owner rest

/-! ## Runs -/

/-- The comments and lines of a file, which change as packages are put in order. -/
structure Surroundings where
  comments : List CommentGroup
  lines : LineTable

/-- Comments from the first through the last that stand on given lines, and those around them. -/
def splitComments (start stop : Pos) (comments : List CommentGroup) :
    List CommentGroup × List CommentGroup × List CommentGroup :=
  let reached := comments.takeWhile (·.stop < stop)
  let before := reached.takeWhile (·.start < start)
  (before, reached.drop before.length, comments.drop reached.length)

/-- Leaves out packages that are repeated by the next. Their lines go together with the ones
below. -/
def withoutRepeats (lines : LineTable) :
    List (PackageSpec × List Attached) → List (PackageSpec × List Attached) × LineTable
  | p :: q :: rest =>
    if p.1.repeats q.1 then withoutRepeats (lines.merge (lines.line p.1.start)) (q :: rest)
    else
      let (kept, lines) := withoutRepeats lines (q :: rest)
      (p :: kept, lines)
  | list => (list, lines)

/-- Puts a run of packages in order. -/
def sortRun (run : List PackageSpec) (s : Surroundings) : List PackageSpec × Surroundings :=
  match run, run.getLast? with
  | first :: _ :: _, some last =>
    let places := run.map fun p => (p.start, p.stop)
    let lastLine := s.lines.line last.stop
    let stop := if lastLine = s.lines.size then last.stop else s.lines.start (lastLine + 1)
    let (before, within, after) :=
      splitComments (s.lines.start (s.lines.line first.start)) stop s.comments
    let owned := owners s.lines (places.map Prod.fst).toArray 0 within
    let attached := run.zipIdx.map fun (p, i) => (p, (owned.filter (·.1 == i)).map Prod.snd)
    let (kept, lines) := withoutRepeats s.lines (attached.mergeSort fun a b => a.1.precedes b.1)
    let moved := (kept.zip places).map fun ((p, groups), (start, stop)) =>
      (p.moveTo start stop,
        groups.map fun a => a.group.moveTo (if a.isBefore then start - 1 else stop))
    let comments := (moved.flatMap Prod.snd).mergeSort fun a b => decide (a.start ≤ b.start)
    (moved.map Prod.fst, { comments := before ++ comments ++ after, lines })
  | _, _ => (run, s)

/-- Packages on successive lines, each run by itself; `run` holds the last of them, last first. -/
def runs (lines : LineTable) : List PackageSpec → List PackageSpec → List (List PackageSpec)
  | run, [] => [run.reverse]
  | [], p :: rest => runs lines [p] rest
  | last :: run, p :: rest =>
    if lines.line last.stop + 1 < lines.line p.start then
      (last :: run).reverse :: runs lines [p] rest
    else runs lines (p :: last :: run) rest

/-- Puts runs in order, one after the other. -/
def sortRuns : List (List PackageSpec) → Surroundings → List PackageSpec × Surroundings
  | [], s => ([], s)
  | run :: rest, s =>
    let (sorted, s) := sortRun run s
    let (more, s) := sortRuns rest s
    (sorted ++ more, s)

/-- Takes out the empty lines before a closing bracket: so many. -/
def closeUp (closing : Nat) : Nat → LineTable → LineTable
  | 0, lines => lines
  | count + 1, lines => closeUp (closing - 1) count (lines.merge (closing - 1))

/-- The package that a part of a declaration imports. -/
def Spec.package? : Spec Expr → Option PackageSpec
  | .package p => some p
  | _ => none

/-- Puts the packages of a declaration in order. -/
def sortGroup (g : DeclGroup Expr) (s : Surroundings) : DeclGroup Expr × Surroundings :=
  let packages := g.specs.filterMap Spec.package?
  if g.opening = 0 || packages.isEmpty then (g, s)
  else
    let (sorted, s) := sortRuns (runs s.lines [] packages) s
    let closing := s.lines.line g.closing
    let last := (sorted.getLast?.map fun p => s.lines.line p.start).getD closing
    ({ g with specs := sorted.map .package },
      { s with lines := closeUp closing (closing - (last + 1)) s.lines })

/-- Puts the imports of a file in order, which come before its other declarations. -/
def sortDecls : List Decl → Surroundings → List Decl × Surroundings
  | .group g :: rest, s =>
    if g.keyword ≠ "import" then (.group g :: rest, s)
    else
      let (g, s) := sortGroup g s
      let (rest, s) := sortDecls rest s
      (.group g :: rest, s)
  | decls, s => (decls, s)

/-- A file with its imports in order. -/
def ParsedFile.sortImports (f : ParsedFile) : ParsedFile :=
  let (decls, s) := sortDecls f.file.decls ⟨f.comments, f.lines⟩
  { f with file := { f.file with decls }, comments := s.comments, lines := s.lines }

end YaccTables.Code
