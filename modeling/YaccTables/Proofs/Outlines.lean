import Mathlib.Data.List.Nodup
import Mathlib.Data.List.Perm.Subperm
import YaccTables.Outline.Forest
import YaccTables.Proofs.TextLines

/-!
# Printed outlines can be read

What is drawn before a line tells where in the outline it stands, whatever the text behind it looks
like. So an outline is given by its print, as long as no text has more than one line.

* `print_eq`: a print is the nodes in preorder, each line of each text behind its drawing.
* `lead_append_inj`: drawings are made of four pieces of which none begins another, and a fork is
  the last piece; so a drawing ends in one place only.
* `preorders_injective`: the nodes in preorder, each with its path, are those of one outline. All
  that is under a node is behind it, up to the next node whose path is not longer.
* `Forest.Unfolds.outline?_eq`: a node of a forest shows as the outline that it unfolds to, if it
  unfolds to any, however often its parts are shared. No node is under itself then, so that the
  number of all nodes bounds the depth.
* `Forest.FiniteBelow.exists_unfolds`: in a forest that is grown step by step (`Forest.Grown`), a
  node unfolds as soon as every way down from it ends.
-/

namespace YaccTables.Outline

/-! ## Nodes in preorder -/

/-- A node of an outline. The path says of its ancestors below the root, and of the node itself,
whether they are the last under their parents. -/
structure Placed where
  path : List Bool
  text : Bytes
  deriving DecidableEq, Repr

mutual

/-- The nodes of an outline in preorder, if its root has a path. -/
def preorder (path : List Bool) : Outline → List Placed
  | .node text items => ⟨path, text⟩ :: preorders path items

/-- The nodes of all outlines under a node with a path. -/
def preorders (path : List Bool) : List Outline → List Placed
  | [] => []
  | item :: rest => preorder (path ++ [rest.isEmpty]) item ++ preorders path rest

end

/-- One piece of a drawing. -/
def stroke (isFork : Bool) (last : Bool) : Bytes := if isFork then fork last else indent last

/-- What is drawn before a line of a node: nothing before the root, else an indent for each ancestor
below the root, and then the fork that leads to the node, or an indent if the line is not its
first. -/
def lead (isFirst : Bool) : List Bool → Bytes
  | [] => []
  | [last] => stroke isFirst last
  | last :: next :: path => stroke false last ++ lead isFirst (next :: path)

/-- The lines of a node, one for each line of its text. -/
def Placed.drawn (p : Placed) : List Bytes :=
  (lines p.text).mapIdx fun i line => lead (i == 0) p.path ++ line

/-! ## What is printed -/

/-- What stands before a line: indentation for each level, and a stroke for the last. -/
theorem lead_concat (isFirst : Bool) (path : List Bool) (last : Bool) :
    lead isFirst (path ++ [last]) = path.flatMap indent ++ stroke isFirst last := by
  induction path with
  | nil => rfl
  | cons a path ih =>
    obtain ⟨b, more, hmore⟩ : ∃ b more, path ++ [last] = b :: more :=
      List.exists_cons_of_ne_nil (by simp)
    rw [List.cons_append, hmore, lead, ← hmore, ih, List.flatMap_cons, List.append_assoc]
    rfl

/-- The first line of a text gets a stroke, and the others go below it. -/
theorem drawn_eq {p : Placed} {first : Bytes} {more : List Bytes}
    (h : lines p.text = first :: more) :
    p.drawn = (lead true p.path ++ first) :: more.map (lead false p.path ++ ·) := by
  rw [Placed.drawn, h, List.mapIdx_cons]
  refine congrArg _ (List.ext_getElem? fun i => ?_)
  rw [List.getElem?_mapIdx, List.getElem?_map]
  rfl

/-- The lines of an item as they are drawn. -/
theorem textLines_eq (path : List Bool) (last : Bool) (text : Bytes) :
    textLines (path.flatMap indent) last text
      = endedLines (Placed.drawn ⟨path ++ [last], text⟩) := by
  obtain ⟨first, more, hlines⟩ := List.exists_cons_of_ne_nil (lines_ne_nil text)
  rw [textLines, hlines, drawn_eq hlines, endedLines_cons, endedLines, List.flatMap_map]
  simp only [lead_concat, List.append_assoc]
  rfl

mutual

/-- A branch is printed as its items are drawn, each where it is placed. -/
theorem branch_eq (path : List Bool) (last : Bool) : (t : Outline) →
    branch (path.flatMap indent) last t
      = endedLines ((preorder (path ++ [last]) t).flatMap Placed.drawn)
  | .node text items => by
    have hlead : path.flatMap indent ++ indent last = (path ++ [last]).flatMap indent := by
      rw [List.flatMap_append, List.flatMap_singleton]
    rw [branch, preorder, List.flatMap_cons, endedLines_append, textLines_eq, hlead,
      branches_eq (path ++ [last]) items]

/-- Branches are printed one after the other. -/
theorem branches_eq (path : List Bool) : (items : List Outline) →
    branches (path.flatMap indent) items = endedLines ((preorders path items).flatMap Placed.drawn)
  | [] => rfl
  | item :: rest => by
    rw [branches, preorders, List.flatMap_append, endedLines_append,
      branch_eq path rest.isEmpty item, branches_eq path rest]

end

/-- The root is drawn as its text. -/
theorem drawn_root (text : Bytes) : Placed.drawn ⟨[], text⟩ = lines text := by
  obtain ⟨first, more, hlines⟩ := List.exists_cons_of_ne_nil (lines_ne_nil text)
  rw [drawn_eq hlines, hlines]
  exact congrArg _ (List.map_id more)

/-- A print is the nodes in preorder, each line of each text behind its drawing. -/
theorem print_eq (t : Outline) : t.print = endedLines ((t.preorder []).flatMap Placed.drawn) := by
  cases t with
  | node text items =>
    have hroot : text ++ [lineFeed] = endedLines (Placed.drawn ⟨[], text⟩) := by
      obtain ⟨init, last, hlines, htext, -⟩ := exists_lines_eq text
      rw [drawn_root, hlines, endedLines_append, endedLines_cons, ← List.append_assoc, ← htext]
      rfl
    rw [print, preorder, List.flatMap_cons, endedLines_append, hroot]
    exact congrArg _ (branches_eq [] items)

/-- What stands before a line is on it. -/
theorem lineFeed_notMem_lead (isFirst : Bool) (path : List Bool) :
    lineFeed ∉ lead isFirst path := by
  have hstroke : ∀ isFork last, lineFeed ∉ stroke isFork last := by decide +kernel
  fun_induction lead isFirst path with
  | case1 => exact List.not_mem_nil
  | case2 last => exact hstroke isFirst last
  | case3 last next path ih => exact mt List.mem_append.mp (not_or.mpr ⟨hstroke false last, ih⟩)

/-- Lines that are drawn are single lines. -/
theorem lineFeed_notMem_drawn {p : Placed} {line : Bytes} (h : line ∈ p.drawn) :
    lineFeed ∉ line := by
  obtain ⟨i, hi, rfl⟩ := List.mem_mapIdx.mp h
  have hown := lineFeed_notMem_of_mem_lines (List.getElem_mem hi)
  exact mt List.mem_append.mp (not_or.mpr ⟨lineFeed_notMem_lead _ _, hown⟩)

/-- The lines of a printed outline are its items as drawn, in order. -/
theorem lines_print (t : Outline) :
    lines t.print = (t.preorder []).flatMap Placed.drawn ++ [[]] := by
  have hfree : ∀ line ∈ (t.preorder []).flatMap Placed.drawn, lineFeed ∉ line := by
    intro line hline
    obtain ⟨p, -, hp⟩ := List.mem_flatMap.mp hline
    exact lineFeed_notMem_drawn hp
  have hlines := lines_ended_append hfree []
  rwa [List.append_nil, ← print_eq] at hlines

/-! ## Reading a print -/

/-- No piece of a drawing begins another. -/
theorem stroke_append_inj {isFork isFork' last last' : Bool} {x y : Bytes}
    (h : stroke isFork last ++ x = stroke isFork' last' ++ y) :
    isFork = isFork' ∧ last = last' ∧ x = y := by
  have htake := congrArg (List.take 3) h
  have hshort : ∀ isFork last z,
      (stroke isFork last ++ z).take 3 = (stroke isFork last).take 3 := by
    intro isFork last z
    cases isFork <;> cases last <;> rfl
  rw [hshort, hshort] at htake
  have hsame : ∀ isFork last isFork' last',
      (stroke isFork last).take 3 = (stroke isFork' last').take 3 →
        isFork = isFork' ∧ last = last' := by decide +kernel
  obtain ⟨rfl, rfl⟩ := hsame _ _ _ _ htake
  exact ⟨rfl, rfl, List.append_cancel_left h⟩

/-- The drawing before the first line of a node ends in one place only. -/
theorem lead_append_inj {path path' : List Bool} (hne : path ≠ []) (hne' : path' ≠ [])
    {x y : Bytes} (h : lead true path ++ x = lead true path' ++ y) : path = path' ∧ x = y := by
  induction path generalizing path' with
  | nil => exact absurd rfl hne
  | cons a path ih =>
    obtain ⟨b, path', rfl⟩ := List.exists_cons_of_ne_nil hne'
    cases path with
    | nil =>
      cases path' with
      | nil =>
        obtain ⟨-, rfl, rfl⟩ := stroke_append_inj h
        exact ⟨rfl, rfl⟩
      | cons b' path' =>
        rw [lead, lead, List.append_assoc] at h
        exact absurd (stroke_append_inj h).1 (by decide)
    | cons a' path =>
      cases path' with
      | nil =>
        rw [lead, lead, List.append_assoc] at h
        exact absurd (stroke_append_inj h).1 (by decide)
      | cons b' path' =>
        rw [lead, lead, List.append_assoc, List.append_assoc] at h
        obtain ⟨-, rfl, hrest⟩ := stroke_append_inj h
        obtain ⟨hpath, hxy⟩ := ih (List.cons_ne_nil _ _) (List.cons_ne_nil _ _) hrest
        exact ⟨congrArg _ hpath, hxy⟩

mutual

/-- No item of a branch is above its root. -/
theorem length_path_of_mem_preorder {path : List Bool} {p : Placed} : {t : Outline} →
    p ∈ preorder path t → path.length ≤ p.path.length
  | .node text items, h => by
    rw [preorder] at h
    rcases List.mem_cons.mp h with rfl | h
    · exact Nat.le_refl _
    · exact Nat.le_of_lt (length_path_of_mem_preorders h)

/-- All items of branches are below where these hang. -/
theorem length_path_of_mem_preorders {path : List Bool} {p : Placed} : {items : List Outline} →
    p ∈ preorders path items → path.length < p.path.length
  | [], h => absurd h List.not_mem_nil
  | item :: rest, h => by
    rw [preorders] at h
    rcases List.mem_append.mp h with h | h
    · have hlength := length_path_of_mem_preorder h
      rwa [List.length_append, List.length_singleton] at hlength
    · exact length_path_of_mem_preorders h

end

/-- The first of some branches hangs one level below. -/
theorem head?_preorders {path : List Bool} {items : List Outline} {p : Placed}
    (h : p ∈ (preorders path items).head?) : p.path.length = path.length + 1 := by
  cases items with
  | nil => exact absurd h (by simp [preorders])
  | cons item rest =>
    cases item with
    | node text items =>
      rw [preorders, preorder, List.cons_append, List.head?_cons, Option.mem_some_iff] at h
      rw [← h, List.length_append, List.length_singleton]

theorem preorder_ne_nil (path : List Bool) (t : Outline) : preorder path t ≠ [] := by
  cases t with
  | node text items => exact List.cons_ne_nil _ _

mutual

/-- What is under the first of several outlines can be told from what is behind it. -/
theorem preorder_injective {path : List Bool} {rest rest' : List Outline} : {t t' : Outline} →
    preorder (path ++ [rest.isEmpty]) t ++ preorders path rest
      = preorder (path ++ [rest'.isEmpty]) t' ++ preorders path rest' →
    t = t' ∧ preorders path rest = preorders path rest'
  | .node text items, .node text' items', h => by
    rw [preorder, preorder, List.cons_append, List.cons_append] at h
    obtain ⟨hroot, hmore⟩ := List.cons.inj h
    obtain ⟨hpath, rfl⟩ := Placed.mk.inj hroot
    rw [← hpath] at hmore
    -- nodes under the first have longer paths than the one behind it
    let isUnder : Placed → Bool := fun p => path.length + 1 < p.path.length
    have hunder : ∀ {items : List Outline}, ∀ p ∈ preorders (path ++ [rest.isEmpty]) items,
        isUnder p = true := by
      intro items p hp
      have hlength := length_path_of_mem_preorders hp
      rw [List.length_append, List.length_singleton] at hlength
      exact decide_eq_true hlength
    have hbehind : ∀ {items : List Outline}, ∀ p ∈ (preorders path items).head?,
        isUnder p = false := by
      intro items p hp
      exact decide_eq_false (by rw [head?_preorders hp]; exact Nat.lt_irrefl _)
    obtain ⟨hitems, hrest⟩ := run_append_inj hunder hunder hbehind hbehind hmore
    rw [preorders_injective hitems]
    exact ⟨rfl, hrest⟩

/-- Placed items tell what branches they are of. -/
theorem preorders_injective {path : List Bool} : {items items' : List Outline} →
    preorders path items = preorders path items' → items = items'
  | [], [], _ => rfl
  | [], item' :: rest', h =>
    absurd (List.append_eq_nil_iff.mp h.symm).1 (preorder_ne_nil _ item')
  | item :: rest, [], h => absurd (List.append_eq_nil_iff.mp h).1 (preorder_ne_nil _ item)
  | item :: rest, item' :: rest', h => by
    rw [preorders, preorders] at h
    obtain ⟨rfl, hrest⟩ := preorder_injective h
    rw [preorders_injective hrest]

end

/-- No text in the outline has more than one line. -/
def OneLined (t : Outline) : Prop := ∀ p ∈ t.preorder [], lineFeed ∉ p.text

instance (t : Outline) : Decidable t.OneLined :=
  inferInstanceAs (Decidable (∀ p ∈ t.preorder [], lineFeed ∉ p.text))

/-- A text of one line is drawn on one line. -/
theorem drawn_of_notMem {p : Placed} (h : lineFeed ∉ p.text) :
    p.drawn = [lead true p.path ++ p.text] := drawn_eq (lines_of_notMem h)

/-- Texts of one line are drawn on one line each. -/
theorem flatMap_drawn {ps : List Placed} (h : ∀ p ∈ ps, lineFeed ∉ p.text) :
    ps.flatMap Placed.drawn = ps.map fun p => lead true p.path ++ p.text := by
  rw [← List.flatMap_pure_eq_map]
  exact List.flatMap_congr fun p hp => drawn_of_notMem (h p hp)

/-- Nodes below the root can be told from their lines. -/
theorem placed_of_drawn {ps qs : List Placed} (hps : ∀ p ∈ ps, p.path ≠ [])
    (hqs : ∀ q ∈ qs, q.path ≠ [])
    (h : ps.map (fun p => lead true p.path ++ p.text)
      = qs.map fun q => lead true q.path ++ q.text) : ps = qs := by
  induction ps generalizing qs with
  | nil => exact (List.map_eq_nil_iff.mp h.symm).symm
  | cons p ps ih =>
    obtain ⟨q, qs, rfl, hq, hmore⟩ := List.map_eq_cons_iff.mp h.symm
    obtain ⟨hp, hps⟩ := List.forall_mem_cons.mp hps
    obtain ⟨hq', hqs⟩ := List.forall_mem_cons.mp hqs
    obtain ⟨hpath, htext⟩ := lead_append_inj hp hq' hq.symm
    have hsame : p = q := congrArg₂ Placed.mk hpath htext
    rw [hsame, ih hps hqs hmore.symm]

/-- No item of a branch stands at the root. -/
theorem path_ne_nil_of_mem {items : List Outline} {p : Placed} (h : p ∈ preorders [] items) :
    p.path ≠ [] := List.ne_nil_of_length_pos (length_path_of_mem_preorders h)

/-- Outlines with texts of one line are told apart by what is printed. -/
theorem print_injective {t t' : Outline} (h : t.OneLined) (h' : t'.OneLined)
    (hprint : t.print = t'.print) : t = t' := by
  have hlines : (t.preorder []).flatMap Placed.drawn = (t'.preorder []).flatMap Placed.drawn := by
    have hall := congrArg lines hprint
    rw [lines_print, lines_print] at hall
    exact List.append_cancel_right hall
  rw [flatMap_drawn h, flatMap_drawn h'] at hlines
  cases t with
  | node text items =>
    cases t' with
    | node text' items' =>
      -- the first line is the root, and all others are below it
      obtain ⟨htext, hmore⟩ := List.cons.inj hlines
      have hitems := placed_of_drawn (fun _ => path_ne_nil_of_mem) (fun _ => path_ne_nil_of_mem)
        hmore
      rw [preorders_injective hitems]
      exact congrArg (node · items') htext

/-! ## Outlines of a forest -/

mutual

/-- The number of nodes on the longest way down. -/
def height : Outline → Nat
  | .node _ items => heights items + 1

/-- The height of the highest outline. -/
def heights : List Outline → Nat
  | [] => 0
  | item :: rest => max item.height (heights rest)

end

/-- Only no items have no height. -/
theorem heights_eq_zero {items : List Outline} (h : heights items = 0) : items = [] := by
  cases items with
  | nil => rfl
  | cons item rest =>
    have hpos : 0 < item.height := by
      cases item with
      | node text items => exact Nat.succ_pos _
    rw [heights] at h
    omega

namespace Forest

/-- What is at a node and under it, unfolded to an outline. Where something is under itself there is
none. -/
inductive Unfolds (f : Forest) : Nat → Outline → Prop
  | node {n : Nat} (found : ForestNode) {outlines : List Outline}
    (hnode : f.nodes[n]? = some found) (hitems : List.Forall₂ (Unfolds f) found.items outlines) :
    Unfolds f n (.node found.text outlines)

variable {f : Forest}

mutual

/-- Looking deep enough down shows the outline that a node unfolds to. -/
theorem Unfolds.below_eq {n : Nat} (depth : Nat) : {t : Outline} → f.Unfolds n t →
    t.height ≤ depth + 1 → f.below depth n = t
  | .node _ outlines, .node found hnode hitems, hdepth => by
    rw [height] at hdepth
    cases depth with
    | zero =>
      have hleaf : outlines = [] := heights_eq_zero (Nat.le_zero.mp (Nat.le_of_succ_le_succ hdepth))
      rw [below, hnode, hleaf]
      rfl
    | succ depth =>
      have hmap := map_below_eq depth hitems (Nat.le_of_succ_le_succ hdepth)
      simp only [below, hnode, hmap]

/-- Items that unfold are found in full if the depth is that of the highest. -/
theorem map_below_eq {ns : List Nat} (depth : Nat) : {ts : List Outline} →
    List.Forall₂ f.Unfolds ns ts → heights ts ≤ depth + 1 → ns.map (f.below depth) = ts
  | [], .nil, _ => rfl
  | _ :: _, .cons h hmore, hdepth => by
    obtain ⟨hfirst, hrest⟩ := Nat.max_le.mp hdepth
    rw [List.map_cons, h.below_eq depth hfirst, map_below_eq depth hmore hrest]

end

/-- A node unfolds into one outline. -/
theorem Unfolds.unique {n : Nat} {t t' : Outline} (h : f.Unfolds n t) (h' : f.Unfolds n t') :
    t = t' := by
  have hbelow := h.below_eq (t.height + t'.height) (by omega)
  have hbelow' := h'.below_eq (t.height + t'.height) (by omega)
  exact hbelow.symm.trans hbelow'

/-- A node that unfolds is one of the forest. -/
theorem Unfolds.lt_size {n : Nat} {t : Outline} (h : f.Unfolds n t) : n < f.size := by
  cases h with
  | node found hnode hitems => exact (List.getElem?_eq_some_iff.mp hnode).1

/-- Different nodes of the forest on a way down, none of which unfolds to more than a height. -/
structure WayDown (f : Forest) (height : Nat) (way : List Nat) : Prop where
  length_eq : way.length = height
  nodup : way.Nodup
  lt_size : ∀ n ∈ way, n < f.size
  unfolds : ∀ n ∈ way, ∃ t, f.Unfolds n t ∧ t.height ≤ height

mutual

/-- An outline is as high as some way down. -/
theorem Unfolds.exists_way {n : Nat} : {t : Outline} → f.Unfolds n t →
    ∃ way, f.WayDown t.height way
  | .node text outlines, h => by
    obtain ⟨way, hway⟩ : ∃ way, f.WayDown (heights outlines) way := by
      cases h with
      | node found hnode hitems => exact exists_way_of_items hitems
    -- a node that is met again further down would unfold to something lower than itself
    have hnotMem : n ∉ way := by
      intro hn
      obtain ⟨t, ht, hle⟩ := hway.unfolds n hn
      rw [← h.unique ht, height] at hle
      exact absurd hle (Nat.not_succ_le_self _)
    refine ⟨n :: way, ?_, List.nodup_cons.mpr ⟨hnotMem, hway.nodup⟩,
      List.forall_mem_cons.mpr ⟨h.lt_size, hway.lt_size⟩,
      List.forall_mem_cons.mpr ⟨⟨_, h, Nat.le_refl _⟩, ?_⟩⟩
    · rw [List.length_cons, hway.length_eq, height]
    · intro m hm
      obtain ⟨t, ht, hle⟩ := hway.unfolds m hm
      exact ⟨t, ht, Nat.le_succ_of_le hle⟩

/-- Outlines are as high as a way down through one of them. -/
theorem exists_way_of_items {ns : List Nat} : {ts : List Outline} →
    List.Forall₂ f.Unfolds ns ts → ∃ way, f.WayDown (heights ts) way
  | [], _ => ⟨[], rfl, List.nodup_nil, by simp, by simp⟩
  | t :: ts, .cons h hmore => by
    rw [heights]
    rcases Nat.le_total t.height (heights ts) with hle | hle
    · rw [Nat.max_eq_right hle]
      exact exists_way_of_items hmore
    · rw [Nat.max_eq_left hle]
      exact h.exists_way

end

/-- An outline is no higher than the forest is large, since no node comes twice on a way down. -/
theorem Unfolds.height_le {n : Nat} {t : Outline} (h : f.Unfolds n t) : t.height ≤ f.size := by
  obtain ⟨way, hlength, hnodup, hlt, -⟩ := h.exists_way
  have hsubset : way ⊆ List.range f.size := fun m hm => List.mem_range.mpr (hlt m hm)
  have hle := (List.subperm_of_subset hnodup hsubset).length_le
  rwa [hlength, List.length_range] at hle

/-- A node shows as the outline that it unfolds to. -/
theorem Unfolds.outline?_eq {n : Nat} {t : Outline} (h : f.Unfolds n t) :
    f.outline? n = some t := by
  rw [outline?, if_pos h.lt_size, h.below_eq f.size (Nat.le_succ_of_le h.height_le)]

/-! ### Which nodes unfold -/

/-- The node `m` stands directly under `n`. -/
def IsItem (f : Forest) (m n : Nat) : Prop := ∃ found, f.nodes[n]? = some found ∧ m ∈ found.items

/-- What is under a node is finite: every way down comes to an end. -/
def FiniteBelow (f : Forest) (n : Nat) : Prop := Acc f.IsItem n

/-- Whatever stands under a node is a node. -/
def Closed (f : Forest) : Prop := ∀ m n, f.IsItem m n → m < f.size

/-- The forests that are grown by adding a root, a node under another, or one node under another a
second time. -/
inductive Grown : Forest → Prop
  | empty : Grown {}
  | plant {f : Forest} (h : Grown f) (text : Bytes) : Grown (f.plant text)
  | graft {f : Forest} (h : Grown f) {parent : Nat} (hparent : parent < f.size) (text : Bytes) :
    Grown (f.graft parent text)
  | attach {f : Forest} (h : Grown f) {parent child : Nat} (hparent : parent < f.size)
    (hchild : child < f.size) : Grown (f.attach parent child)

/-- Planting adds one node. -/
theorem size_plant (f : Forest) (text : Bytes) : (f.plant text).size = f.size + 1 :=
  List.length_append

/-- Attaching adds no node. -/
theorem size_attach (f : Forest) (parent child : Nat) : (f.attach parent child).size = f.size :=
  List.length_modify _ _ _

/-- Planting leads to no node that is not there. -/
theorem closed_plant (h : f.Closed) (text : Bytes) : (f.plant text).Closed := by
  rintro m n ⟨found, hfound, hm⟩
  rw [size_plant]
  rcases List.mem_append.mp (List.mem_of_getElem? hfound) with hold | hnew
  · obtain ⟨n', hn'⟩ := List.getElem?_of_mem hold
    exact Nat.lt_succ_of_lt (h m n' ⟨found, hn', hm⟩)
  · rw [List.mem_singleton.mp hnew] at hm
    exact absurd hm List.not_mem_nil

/-- Attaching a node that is there leads to no other. -/
theorem closed_attach {child : Nat} (h : f.Closed) (parent : Nat) (hchild : child < f.size) :
    (f.attach parent child).Closed := by
  rintro m n ⟨found, hfound, hm⟩
  rw [size_attach]
  rw [attach, List.getElem?_modify] at hfound
  obtain ⟨old, hold, rfl⟩ := Option.map_eq_some_iff.mp hfound
  split at hm
  · rcases List.mem_append.mp hm with hm | hm
    · exact h m n ⟨old, hold, hm⟩
    · rwa [List.mem_singleton.mp hm]
  · exact h m n ⟨old, hold, hm⟩

/-- No node of a grown forest leads out of it. -/
theorem Grown.closed (h : Grown f) : f.Closed := by
  induction h with
  | empty => exact fun m n ⟨found, hfound, _⟩ => absurd hfound (by simp)
  | plant _ text ih => exact closed_plant ih text
  | @graft f _ parent _ text ih =>
    exact closed_attach (closed_plant ih text) parent (by rw [size_plant]; exact Nat.lt_succ_self _)
  | attach _ _ hchild ih => exact closed_attach ih _ hchild

/-- Nodes unfold together if each of them does. -/
theorem exists_unfolds_items {ns : List Nat} (h : ∀ n ∈ ns, ∃ t, f.Unfolds n t) :
    ∃ ts, List.Forall₂ f.Unfolds ns ts := by
  induction ns with
  | nil => exact ⟨[], .nil⟩
  | cons n ns ih =>
    obtain ⟨⟨t, ht⟩, hns⟩ := List.forall_mem_cons.mp h
    obtain ⟨ts, hts⟩ := ih hns
    exact ⟨t :: ts, .cons ht hts⟩

/-- A node unfolds if every way down from it comes to an end. -/
theorem FiniteBelow.exists_unfolds {n : Nat} (h : f.FiniteBelow n) (hf : f.Closed)
    (hn : n < f.size) : ∃ t, f.Unfolds n t := by
  induction h with
  | intro n _ ih =>
    obtain ⟨found, hnode⟩ : ∃ found, f.nodes[n]? = some found :=
      ⟨_, List.getElem?_eq_getElem hn⟩
    obtain ⟨ts, hts⟩ := exists_unfolds_items fun m hm =>
      have hitem : f.IsItem m n := ⟨_, hnode, hm⟩
      ih m hitem (hf m n hitem)
    exact ⟨_, .node found hnode hts⟩

mutual

/-- A node unfolds only if every way down from it comes to an end. -/
theorem Unfolds.finiteBelow {n : Nat} : {t : Outline} → f.Unfolds n t → f.FiniteBelow n
  | .node _ _, .node found hnode hitems => by
    refine Acc.intro n ?_
    rintro m ⟨found', hfound', hm⟩
    rw [hnode, Option.some.injEq] at hfound'
    exact finiteBelow_of_mem hitems (hfound' ▸ hm)

/-- Of several nodes that unfold, each has what is under it finite. -/
theorem finiteBelow_of_mem {ns : List Nat} {n : Nat} : {ts : List Outline} →
    List.Forall₂ f.Unfolds ns ts → n ∈ ns → f.FiniteBelow n
  | [], .nil, hn => absurd hn List.not_mem_nil
  | _ :: _, .cons h hmore, hn => by
    rcases List.mem_cons.mp hn with rfl | hn
    · exact h.finiteBelow
    · exact finiteBelow_of_mem hmore hn

end

/-- **A print gives the outline.** What is finite unfolds to an outline, and its print has a line
for each line of each text, in preorder and behind a drawing. From texts of one line the outline can
be told. -/
theorem print_determines_outline {f f' : Forest} {n n' : Nat} (hf : Grown f) (hn : n < f.size)
    (hfinite : f.FiniteBelow n) (hf' : Grown f') (hn' : n' < f'.size)
    (hfinite' : f'.FiniteBelow n') :
    ∃ t t' out out', f.Unfolds n t ∧ f'.Unfolds n' t' ∧
      (f.outline? n).map print = some out ∧ (f'.outline? n').map print = some out' ∧
      lines out = (t.preorder []).flatMap Placed.drawn ++ [[]] ∧
      (t.OneLined → t'.OneLined → out = out' → t = t') := by
  obtain ⟨t, ht⟩ := hfinite.exists_unfolds hf.closed hn
  obtain ⟨t', ht'⟩ := hfinite'.exists_unfolds hf'.closed hn'
  refine ⟨t, t', t.print, t'.print, ht, ht', ?_, ?_, lines_print t, print_injective⟩
  · rw [ht.outline?_eq, Option.map_some]
  · rw [ht'.outline?_eq, Option.map_some]

/-- A branch that stands twice under the root, with texts that look like drawings. -/
def sharedBranch : Forest :=
  (((({} : Forest).plant (utf8 "")).graft 0 (utf8 "├── ")).graft 1 (utf8 "    └── b")).attach 0 1

/-- The same with a copy of the branch. -/
def copiedBranch : Forest :=
  ((((({} : Forest).plant (utf8 "")).graft 0 (utf8 "├── ")).graft 1 (utf8 "    └── b")).graft 0
    (utf8 "├── ")).graft 3 (utf8 "    └── b")

theorem print_determines_sharedBranch :
    Grown sharedBranch ∧ sharedBranch.FiniteBelow 0 ∧ Grown copiedBranch ∧
      copiedBranch.FiniteBelow 0 ∧
      ∃ t t' out out', sharedBranch.Unfolds 0 t ∧ copiedBranch.Unfolds 0 t' ∧
        (sharedBranch.outline? 0).map print = some out ∧
        (copiedBranch.outline? 0).map print = some out' ∧
        lines out = (t.preorder []).flatMap Placed.drawn ++ [[]] ∧
        (t.OneLined → t'.OneLined → out = out' → t = t') := by
  have hgrown : Grown (((({} : Forest).plant (utf8 "")).graft 0 (utf8 "├── ")).graft 1
      (utf8 "    └── b")) :=
    .graft (.graft (.plant .empty _) (by decide) _) (by decide) _
  have hshared : Grown sharedBranch := .attach hgrown (by decide) (by decide)
  have hcopied : Grown copiedBranch := .graft (.graft hgrown (by decide) _) (by decide) _
  -- a branch is two nodes with one below the other
  have hbranch : ∀ {f : Forest} {n m : Nat} {x y : Bytes}, f.nodes[n]? = some ⟨x, [m]⟩ →
      f.nodes[m]? = some ⟨y, []⟩ → f.Unfolds n (.node x [.leaf y]) :=
    fun hn hm => .node _ hn (.cons (.node _ hm .nil) .nil)
  have hfinite : sharedBranch.FiniteBelow 0 :=
    (Unfolds.node ⟨utf8 "", [1, 1]⟩ rfl (.cons (hbranch rfl rfl) (.cons (hbranch rfl rfl)
      .nil))).finiteBelow
  have hfinite' : copiedBranch.FiniteBelow 0 :=
    (Unfolds.node ⟨utf8 "", [1, 3]⟩ rfl (.cons (hbranch rfl rfl) (.cons (hbranch rfl rfl)
      .nil))).finiteBelow
  exact ⟨hshared, hfinite, hcopied, hfinite',
    print_determines_outline hshared (by decide) hfinite hcopied (by decide) hfinite'⟩

end Forest

end YaccTables.Outline
