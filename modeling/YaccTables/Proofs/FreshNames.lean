import Mathlib.Data.Finset.Card
import Mathlib.Order.Bounds.Basic
import Mathlib.Order.Interval.Finset.Nat
import YaccTables.Proofs.Lowering

/-!
# The search for fresh names

A fresh name is looked for in the plainest way: look the marker up, and while it is taken put the
marker behind it once more. Nothing in this limits the search, so `Search` is a relation that counts
the lookups. Three facts tell how it ends:

* the repetitions of a marker that is not empty are all different, so the least free one has at
  most one marker more than there are taken names (`le_card_of_isLeast`);
* the search goes through all repetitions before it and stops there (`search_of_isLeast`);
* `freshName` gives the same name (`freshName_eq_of_isLeast`).

The synthetic nonterminals are chosen one after the other, each clear of those before it. Their
markers do not have the same bytes, and neither have the repetitions of these (`repeatedMarker_ne`).
So the names chosen before are never in the way (`freeTimes_cons`), and each name is as short as the
rules alone allow.
-/

namespace YaccTables

/-! ## Repetitions of markers -/

variable {marker : Bytes} {taken : List Name}

theorem repeatedMarker_one (marker : Bytes) : repeatedMarker marker 1 = marker := by
  simp [repeatedMarker]

theorem repeatedMarker_succ (marker : Bytes) (times : Nat) :
    repeatedMarker marker (times + 1) = repeatedMarker marker times ++ marker := by
  simp [repeatedMarker, List.replicate_succ']

/-- A repetition holds the bytes of its marker. -/
theorem mem_repeatedMarker_iff {times : Nat} (ht : 1 ≤ times) {b : UInt8} :
    b ∈ repeatedMarker marker times ↔ b ∈ marker := by
  constructor
  · exact mem_of_mem_repeatedMarker
  · intro hb
    obtain ⟨t, rfl⟩ := Nat.exists_eq_add_of_le' ht
    rw [repeatedMarker_succ]
    exact List.mem_append_right _ hb

/-- A byte that only one of two markers has tells their repetitions apart. -/
theorem repeatedMarker_ne {other : Bytes} {b : UInt8} (hb : b ∈ marker) (hother : b ∉ other)
    {m n : Nat} (hm : 1 ≤ m) : repeatedMarker marker m ≠ repeatedMarker other n := by
  intro heq
  have hmem : b ∈ repeatedMarker other n := heq ▸ (mem_repeatedMarker_iff hm).mpr hb
  exact hother (mem_of_mem_repeatedMarker hmem)

/-- How often a marker can be repeated to give a name that is not taken. -/
def freeTimes (marker : Bytes) (taken : List Name) : Set Nat :=
  {n | 1 ≤ n ∧ repeatedMarker marker n ∉ taken}

/-- A taken name that is no repetition of the marker is not in the way. -/
theorem freeTimes_cons {name : Name} (h : ∀ n, 1 ≤ n → repeatedMarker marker n ≠ name) :
    freeTimes marker (name :: taken) = freeTimes marker taken := by
  ext n
  show (1 ≤ n ∧ _ ∉ name :: taken) ↔ (1 ≤ n ∧ _ ∉ taken)
  rw [List.mem_cons, not_or]
  exact and_congr_right fun hn => and_iff_right (h n hn)

/-- All shorter repetitions than the shortest free one are taken. -/
theorem mem_of_lt_isLeast {m n : Nat} (h : IsLeast (freeTimes marker taken) n) (hm : 1 ≤ m)
    (hlt : m < n) : repeatedMarker marker m ∈ taken := by
  by_contra hfree
  exact absurd (h.2 ⟨hm, hfree⟩) (Nat.not_le.mpr hlt)

/-- The shortest free repetition is found within one probe more than there are taken names. -/
theorem le_card_of_isLeast (hmarker : marker ≠ []) {n : Nat}
    (h : IsLeast (freeTimes marker taken) n) : n ≤ taken.toFinset.card + 1 := by
  -- the repetitions before the least free one are taken, and they are all different
  have hcard : (Finset.Ico 1 n).card ≤ taken.toFinset.card := by
    apply Finset.card_le_card_of_injOn (repeatedMarker marker)
    · intro m hm
      obtain ⟨hle, hlt⟩ := Finset.mem_Ico.mp hm
      exact List.mem_toFinset.mpr (mem_of_lt_isLeast h hle hlt)
    · exact (repeatedMarker_injective hmarker).injOn
  rw [Nat.card_Ico] at hcard
  omega

/-- Some repetition is the shortest that is free. -/
theorem exists_isLeast_freeTimes (hmarker : marker ≠ []) (taken : List Name) :
    ∃ n, IsLeast (freeTimes marker taken) n := by
  obtain ⟨name, hname, hfree⟩ := exists_candidate_notMem hmarker taken
  obtain ⟨i, -, rfl⟩ := List.mem_map.mp hname
  have hex : ∃ n, 1 ≤ n ∧ repeatedMarker marker n ∉ taken := ⟨i + 1, by omega, hfree⟩
  exact ⟨Nat.find hex, Nat.find_spec hex, fun m hm => Nat.find_min' hex hm⟩

/-! ## The search -/

/-- The search for a free name from a name on: the name itself, the name with the marker behind it
and so on are looked up, until one is found that is not taken. `probes` counts the lookups. -/
inductive Search (marker : Bytes) (taken : List Name) : Name → Nat → Name → Prop
  | free {name : Name} : name ∉ taken → Search marker taken name 1 name
  | next {name found : Name} {probes : Nat} : name ∈ taken →
      Search marker taken (name ++ marker) probes found →
      Search marker taken name (probes + 1) found

/-- A search ends in one way. -/
theorem Search.unique {name found found' : Name} {probes probes' : Nat}
    (h : Search marker taken name probes found) (h' : Search marker taken name probes' found') :
    probes' = probes ∧ found' = found := by
  induction h generalizing probes' with
  | free hfree =>
    cases h' with
    | free => exact ⟨rfl, rfl⟩
    | next htaken => exact absurd htaken hfree
  | next htaken _ ih =>
    cases h' with
    | free hfree => exact absurd htaken hfree
    | next _ hrest =>
      obtain ⟨hprobes, hfound⟩ := ih hrest
      exact ⟨by rw [hprobes], hfound⟩

/-- From any repetition up to the least free one the search goes on to that one. The induction is
on how many markers are missing. -/
theorem search_of_isLeast {n : Nat} (h : IsLeast (freeTimes marker taken) n) (missing : Nat)
    (hlt : missing < n) :
    Search marker taken (repeatedMarker marker (n - missing)) (missing + 1)
      (repeatedMarker marker n) := by
  induction missing with
  | zero => exact .free h.1.2
  | succ missing ih =>
    have hstep : repeatedMarker marker (n - (missing + 1)) ++ marker
        = repeatedMarker marker (n - missing) := by
      rw [← repeatedMarker_succ, show n - (missing + 1) + 1 = n - missing by omega]
    apply Search.next
    · exact mem_of_lt_isLeast h (by omega) (by omega)
    · rw [hstep]
      exact ih (by omega)

/-- The bounded search finds the shortest free repetition. -/
theorem freshName_eq_of_isLeast (hmarker : marker ≠ []) {n : Nat}
    (h : IsLeast (freeTimes marker taken) n) :
    freshName marker taken = repeatedMarker marker n := by
  have hn : 1 ≤ n := h.1.1
  have hle : n ≤ taken.length + 1 :=
    Nat.le_trans (le_card_of_isLeast hmarker h) (by have := taken.toFinset_card_le; omega)
  -- candidates are counted from zero, repetitions from one
  have hfind : (List.range (taken.length + 1)).find?
      (fun i => !taken.contains (repeatedMarker marker (i + 1))) = some (n - 1) := by
    rw [List.find?_range_eq_some]
    refine ⟨?_, List.mem_range.mpr (by omega), ?_⟩
    · rw [show n - 1 + 1 = n by omega]
      simpa using h.1.2
    · intro i hi
      simpa using mem_of_lt_isLeast h (m := i + 1) (by omega) (by omega)
  unfold freshName
  dsimp only
  rw [List.find?_map]
  show (((List.range (taken.length + 1)).find?
    (fun i => !taken.contains (repeatedMarker marker (i + 1)))).map _).getD _ = _
  rw [hfind, Option.map_some, Option.getD_some, show n - 1 + 1 = n by omega]

/-! ## Names of synthetic symbols -/

/-- A name is the shortest repetition of a marker that is not taken. -/
def ShortestFree (marker : Bytes) (taken : List Name) (name : Name) : Prop :=
  ∃ n, IsLeast (freeTimes marker taken) n ∧ name = repeatedMarker marker n

/-- A fresh name is the shortest free repetition of its marker. -/
theorem shortestFree_freshName (hmarker : marker ≠ []) (taken : List Name) :
    ShortestFree marker taken (freshName marker taken) := by
  obtain ⟨n, hn⟩ := exists_isLeast_freeTimes hmarker taken
  exact ⟨n, hn, freshName_eq_of_isLeast hmarker hn⟩

/-- The shortest free repetition is not taken. -/
theorem ShortestFree.notMem {name : Name} (h : ShortestFree marker taken name) : name ∉ taken := by
  obtain ⟨n, hn, rfl⟩ := h
  exact hn.1.2

/-- A name that another marker gave is not in the way, if the two markers differ in a byte. -/
theorem ShortestFree.of_cons {other : Bytes} {taken' : List Name} {name chosen : Name} {b : UInt8}
    (h : ShortestFree marker (chosen :: taken) name) (hchosen : ShortestFree other taken' chosen)
    (hb : b ∈ marker ∧ b ∉ other ∨ b ∈ other ∧ b ∉ marker) :
    ShortestFree marker taken name ∧ name ≠ chosen := by
  obtain ⟨m, hm, rfl⟩ := hchosen
  have hne : ∀ n, 1 ≤ n → repeatedMarker marker n ≠ repeatedMarker other m := by
    intro n hn
    rcases hb with ⟨hin, hout⟩ | ⟨hin, hout⟩
    · exact repeatedMarker_ne hin hout hn
    · exact (repeatedMarker_ne hin hout hm.1.1).symm
  obtain ⟨n, hn, rfl⟩ := h
  rw [freeTimes_cons hne] at hn
  exact ⟨⟨n, hn, rfl⟩, hne n hn.1.1⟩

/-- The symbols that lowering adds to a description have names that it does not use: the synthetic
nonterminals are apart from each other and from the rules, and each name is as short as the rules,
or for the end of the input the tokens, allow. -/
structure SyntheticNames.Fresh (names : SyntheticNames) (kind : Kind) (a : Description) :
    Prop where
  nodup : names.nonterminals.Nodup
  notMem_rules : ∀ name ∈ names.nonterminals, name ∉ a.ruleNames
  notMem_tokens : names.endName ∉ a.tokens
  start : ShortestFree (utf8 "^") a.ruleNames names.start
  endName : ShortestFree (utf8 "$") a.tokens names.endName
  woven_iff : names.woven.isSome ↔ kind = .eco ∧ a.implicitTokens ≠ []
  implicit : ∀ woven, names.woven = some woven →
    ShortestFree (utf8 "~") a.ruleNames woven.implicit
  implicitStart : ∀ woven, names.woven = some woven →
    ShortestFree (utf8 "^~") a.ruleNames woven.implicitStart

/-- The synthetic names of any description are fresh. -/
theorem Description.syntheticNames_fresh (kind : Kind) (a : Description) :
    (a.syntheticNames kind).Fresh kind a := by
  have hstart := shortestFree_freshName (show utf8 "^" ≠ [] by decide) a.ruleNames
  set start := freshName (utf8 "^") a.ruleNames
  -- of the three markers, one lacks the tilde and another one the caret
  obtain ⟨himplicit, hne⟩ :=
    (shortestFree_freshName (show utf8 "~" ≠ [] by decide) (start :: a.ruleNames)).of_cons hstart
      (b := ascii '~') (by decide)
  set implicit := freshName (utf8 "~") (start :: a.ruleNames)
  obtain ⟨hbehind, hne'⟩ :=
    (shortestFree_freshName (show utf8 "^~" ≠ [] by decide)
      (implicit :: start :: a.ruleNames)).of_cons himplicit (b := ascii '^') (by decide)
  set implicitStart := freshName (utf8 "^~") (implicit :: start :: a.ruleNames)
  obtain ⟨hfirst, hne''⟩ := hbehind.of_cons hstart (b := ascii '~') (by decide)
  have hend := shortestFree_freshName (show utf8 "$" ≠ [] by decide) a.tokens
  have hnames : a.syntheticNames kind
      = ⟨start, freshName (utf8 "$") a.tokens,
        if a.weaves kind then some ⟨implicit, implicitStart⟩ else none⟩ := rfl
  have hwoven : ∀ woven, (a.syntheticNames kind).woven = some woven →
      woven = ⟨implicit, implicitStart⟩ := by
    intro woven h
    rw [hnames, Option.ite_none_right_eq_some] at h
    exact (Option.some.inj h.2).symm
  have hlist : (a.syntheticNames kind).nonterminals.Sublist [start, implicit, implicitStart] := by
    unfold SyntheticNames.nonterminals
    cases hw : (a.syntheticNames kind).woven with
    | none => exact (List.nil_sublist _).cons_cons start
    | some woven =>
      rw [hwoven woven hw]
      exact List.Sublist.refl _
  constructor
  case nodup =>
    apply List.Nodup.sublist hlist
    simp [hne.symm, hne'.symm, hne''.symm]
  case notMem_rules =>
    intro name hname
    have hcases := hlist.subset hname
    simp only [List.mem_cons, List.not_mem_nil, or_false] at hcases
    rcases hcases with rfl | rfl | rfl
    · exact hstart.notMem
    · exact himplicit.notMem
    · exact hfirst.notMem
  case notMem_tokens => exact hend.notMem
  case start => exact hstart
  case endName => exact hend
  case woven_iff => exact (a.woven_isSome_iff kind).trans (a.weaves_iff kind)
  case implicit =>
    intro woven h
    rw [hwoven woven h]
    exact himplicit
  case implicitStart =>
    intro woven h
    rw [hwoven woven h]
    exact hfirst

/-- **The search for a fresh name ends**, after at most one lookup more than there are taken names,
with the shortest repetition of the marker that is not taken. **The synthetic symbols get such
names**: they are apart from each other and from what a description uses, and none is longer for
the sake of another one. -/
theorem freshNames_shortest :
    (∀ (marker : Bytes) (taken : List Name), marker ≠ [] →
      ∃ times, IsLeast (freeTimes marker taken) times ∧
        freshName marker taken = repeatedMarker marker times ∧
        times ≤ taken.toFinset.card + 1 ∧
        ∀ probes found, Search marker taken marker probes found ↔
          probes = times ∧ found = freshName marker taken) ∧
      ∀ (kind : Kind) (a : Description), (a.syntheticNames kind).Fresh kind a := by
  refine ⟨?_, fun kind a => a.syntheticNames_fresh kind⟩
  intro marker taken hmarker
  obtain ⟨times, hleast⟩ := exists_isLeast_freeTimes hmarker taken
  have hfresh := freshName_eq_of_isLeast hmarker hleast
  refine ⟨times, hleast, hfresh, le_card_of_isLeast hmarker hleast, ?_⟩
  -- the marker itself is one repetition, so that all others up to the free one are missing
  have hsearch : Search marker taken marker times (freshName marker taken) := by
    have hpos : 1 ≤ times := hleast.1.1
    have h := search_of_isLeast hleast (times - 1) (by omega)
    rwa [show times - (times - 1) = 1 by omega, show times - 1 + 1 = times by omega,
      repeatedMarker_one, ← hfresh] at h
  intro probes found
  constructor
  · exact hsearch.unique
  · rintro ⟨rfl, rfl⟩
    exact hsearch

/-- A description that uses the markers as names, one of them twice. -/
def crowdedMarkers : Description :=
  { start := utf8 "^"
    rules := [⟨utf8 "^", []⟩, ⟨utf8 "~", []⟩, ⟨utf8 "^~", []⟩, ⟨utf8 "^", []⟩, ⟨utf8 "^~^~", []⟩]
    tokens := [utf8 "$", utf8 "^"]
    implicitTokens := [utf8 "$"] }

theorem freshNames_shortest_crowdedMarkers :
    utf8 "^~" ≠ [] ∧
      Search (utf8 "^~") crowdedMarkers.ruleNames (utf8 "^~") 3 (utf8 "^~^~^~") ∧
      crowdedMarkers.syntheticNames .eco
        = ⟨utf8 "^^", utf8 "$$", some ⟨utf8 "~~", utf8 "^~^~^~"⟩⟩ ∧
      (crowdedMarkers.syntheticNames .eco).Fresh .eco crowdedMarkers := by
  have hmarker : utf8 "^~" ≠ [] := by decide
  obtain ⟨times, hleast, hfresh, -, hsearch⟩ :=
    freshNames_shortest.1 (utf8 "^~") crowdedMarkers.ruleNames hmarker
  have hfound : freshName (utf8 "^~") crowdedMarkers.ruleNames = utf8 "^~^~^~" := by decide
  have htimes : times = 3 := by
    refine repeatedMarker_injective hmarker ?_
    rw [← hfresh, hfound]
    decide
  exact ⟨hmarker, (hsearch _ _).mpr ⟨htimes.symm, hfound.symm⟩, by decide,
    freshNames_shortest.2 .eco crowdedMarkers⟩

end YaccTables
