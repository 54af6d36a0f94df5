import Mathlib.Data.List.Induction
import Piggy.Store.Walk

/-!
# What the walk lists

The entries below a root are told by the names on the way to them. The walk finds each ebox
once, in the order of these lists of names, which is the order of the paths.
-/

namespace Piggy.Store

open Piggy.Core
open Piggy.Box (Bytes strBytes fromUtf8 fromUtf8_ok fromUtf8Lossy strBytes_inj)

/-! ## Paths below a root -/

/-- A name that a file can have in a directory. -/
def IsName (name : Bytes) : Prop :=
  name ≠ [] ∧ slash ∉ name ∧ name ≠ [dot] ∧ name ≠ [dot, dot]

instance (name : Bytes) : Decidable (IsName name) :=
  inferInstanceAs (Decidable (_ ∧ _ ∧ _ ∧ _))

/-- The path of an entry below a root. -/
def pathOf (root : Bytes) (names : List Bytes) : Bytes := names.foldl osJoin root

theorem osSegments_ne_nil (s : Bytes) : osSegments s ≠ [] := by
  cases s with
  | nil => exact List.cons_ne_nil _ _
  | cons b bs =>
    rw [osSegments]
    split
    · exact List.cons_ne_nil _ _
    · split <;> exact List.cons_ne_nil _ _

/-- A slash separates the segments before it from those after it. -/
theorem osSegments_append_slash (s t : Bytes) :
    osSegments (s ++ slash :: t) = osSegments s ++ osSegments t := by
  induction s with
  | nil => rfl
  | cons b bs ih =>
    by_cases hb : b = slash
    · simp only [List.cons_append, osSegments, if_pos hb, ih]
    · simp only [List.cons_append, osSegments, if_neg hb, ih]
      rcases hs : osSegments bs with _ | ⟨seg, segs⟩
      · exact absurd hs (osSegments_ne_nil bs)
      · rfl

/-- Bytes without slashes are one segment. -/
theorem osSegments_of_notMem {s : Bytes} (h : slash ∉ s) : osSegments s = [s] := by
  induction s with
  | nil => rfl
  | cons b bs ih =>
    rw [List.mem_cons, not_or] at h
    simp only [osSegments, if_neg (Ne.symm h.1), ih h.2]

theorem IsName.head_ne {name : Bytes} (h : IsName name) : name.head? ≠ some slash := by
  intro hhead
  exact h.2.1 (List.mem_of_head? hhead)

theorem IsName.component {name : Bytes} (h : IsName name) :
    osSegmentComponent name = some (.normal name) := by
  rw [osSegmentComponent, if_neg (not_or.mpr ⟨h.1, h.2.2.1⟩), if_neg h.2.2.2]

/-- The two ways in which a name is appended. -/
theorem osJoin_name {p name : Bytes} (hp : p ≠ []) (h : IsName name) :
    (∃ front, p = front ++ [slash] ∧ osJoin p name = front ++ slash :: name) ∨
      osJoin p name = p ++ slash :: name := by
  rw [osJoin, if_neg h.head_ne, if_neg hp]
  split
  · next hlast =>
    obtain ⟨front, rfl⟩ := List.getLast?_eq_some_iff.mp hlast
    exact .inl ⟨front, rfl, List.append_assoc ..⟩
  · exact .inr rfl

theorem osJoin_ne_nil {p name : Bytes} (hp : p ≠ []) (h : IsName name) : osJoin p name ≠ [] := by
  rcases osJoin_name hp h with ⟨front, -, hjoin⟩ | hjoin <;> rw [hjoin] <;> simp

/-- A name is one more component. -/
theorem osComponents_osJoin {p name : Bytes} (hp : p ≠ []) (h : IsName name) :
    osComponents (osJoin p name) = osComponents p ++ [.normal name] := by
  have hsegments : ∀ front : Bytes, (osSegments (front ++ slash :: name)).filterMap osSegmentComponent =
      (osSegments front).filterMap osSegmentComponent ++ [.normal name] := by
    intro front
    rw [osSegments_append_slash, osSegments_of_notMem h.2.1, List.filterMap_append,
      List.filterMap_cons_some h.component, List.filterMap_nil]
  have hfirst : ∀ front : Bytes, (osSegments (front ++ slash :: name)).head? = (osSegments front).head? := by
    intro front
    rw [osSegments_append_slash]
    cases hs : osSegments front with
    | nil => exact absurd hs (osSegments_ne_nil front)
    | cons seg segs => rfl
  rcases osJoin_name hp h with ⟨front, rfl, hjoin⟩ | hjoin
  · -- the path ends in a slash: its last segment is empty
    have hempty : (osSegments (front ++ [slash])).filterMap osSegmentComponent =
        (osSegments front).filterMap osSegmentComponent := by
      rw [osSegments_append_slash, List.filterMap_append]
      simp [osSegments, osSegmentComponent]
    have hfirst' : (osSegments (front ++ [slash])).head? = (osSegments front).head? := by
      rw [osSegments_append_slash]
      cases hs : osSegments front with
      | nil => exact absurd hs (osSegments_ne_nil front)
      | cons seg segs => rfl
    have hhead : (front ++ slash :: name).head? = (front ++ [slash]).head? := by
      cases front <;> rfl
    rw [hjoin, osComponents, osComponents, hsegments, hfirst, hhead, hempty, hfirst']
    split
    · rfl
    · split <;> rfl
  · have hhead : (p ++ slash :: name).head? = p.head? := by
      cases p with
      | nil => exact absurd rfl hp
      | cons b bs => rfl
    rw [hjoin, osComponents, osComponents, hsegments, hfirst, hhead]
    split
    · rfl
    · split <;> rfl

theorem osComponents_pathOf {root : Bytes} (hroot : root ≠ []) {names : List Bytes}
    (h : ∀ n ∈ names, IsName n) :
    osComponents (pathOf root names) = osComponents root ++ names.map .normal := by
  induction names generalizing root with
  | nil => exact (List.append_nil _).symm
  | cons n names ih =>
    have hn := h n List.mem_cons_self
    rw [pathOf, List.foldl_cons, ← pathOf,
      ih (osJoin_ne_nil hroot hn) fun m hm => h m (List.mem_cons_of_mem _ hm),
      osComponents_osJoin hroot hn, List.append_assoc]
    rfl

theorem pathOf_append (root : Bytes) (above below : List Bytes) :
    pathOf root (above ++ below) = pathOf (pathOf root above) below := List.foldl_append

/-- Entries are told by the components of their paths. -/
theorem osComponents_pathOf_inj {root : Bytes} (hroot : root ≠ []) {names names' : List Bytes}
    (h : ∀ n ∈ names, IsName n) (h' : ∀ n ∈ names', IsName n) :
    osComponents (pathOf root names) = osComponents (pathOf root names') ↔ names = names' := by
  rw [osComponents_pathOf hroot h, osComponents_pathOf hroot h', List.append_cancel_left_eq]
  exact (List.map_injective_iff.mpr fun _ _ => OsComponent.normal.inj).eq_iff

theorem pathOf_inj {root : Bytes} (hroot : root ≠ []) {names names' : List Bytes}
    (h : ∀ n ∈ names, IsName n) (h' : ∀ n ∈ names', IsName n)
    (heq : pathOf root names = pathOf root names') : names = names' :=
  (osComponents_pathOf_inj hroot h h').mp (congrArg osComponents heq)

/-! ## The order of paths -/

/-- The order of the kinds of components. -/
def OsComponent.rank : OsComponent → Nat
  | rootDir => 0
  | curDir => 1
  | parentDir => 2
  | normal _ => 3

/-- The order of components: names by their bytes, behind the others. -/
def OsComponent.Before : OsComponent → OsComponent → Prop
  | normal a, normal b => a < b
  | c, d => c.rank < d.rank

/-- The order of paths, component by component. -/
def PathBefore (p q : Bytes) : Prop :=
  List.Lex OsComponent.Before (osComponents p) (osComponents q)

/-- Below one root the order is that of the names. -/
theorem pathBefore_pathOf {root : Bytes} (hroot : root ≠ []) {names names' : List Bytes}
    (h : ∀ n ∈ names, IsName n) (h' : ∀ n ∈ names', IsName n) (hlt : names < names') :
    PathBefore (pathOf root names) (pathOf root names') := by
  rw [PathBefore, osComponents_pathOf hroot h, osComponents_pathOf hroot h']
  induction osComponents root with
  | nil =>
    rw [List.nil_append, List.nil_append]
    have hlex : List.Lex (· < ·) names names' := hlt
    clear hlt h h'
    induction hlex with
    | nil => exact .nil
    | rel hab => exact .rel hab
    | cons _ ih => exact .cons ih
  | cons c components ih => exact .cons ih

/-! ## What is to be listed -/

/-- What is below a root, told by the names on the way; directories may not be readable. -/
structure HasStore (files : Files) (root : Bytes) (tree : List Bytes → Option EntryKind) : Prop where
  root_ne : root ≠ []
  metadata : ∀ names, (∀ n ∈ names, IsName n) → files.metadata (pathOf root names) = tree names
  readDir : ∀ above children, (∀ n ∈ above, IsName n) → tree above = some .dir →
    files.readDir (pathOf root above) = .ok children →
    children.Nodup ∧ (∀ n ∈ children, IsName n) ∧
      ∀ n, IsName n → tree (above ++ [n]) ≠ none → n ∈ children
  closed : ∀ above n, tree (above ++ [n]) ≠ none → tree above = some .dir

/-- A regular file that is an ebox, not too deep, and not under a directory of git. -/
structure Listed (root : Bytes) (tree : List Bytes → Option EntryKind) (names : List Bytes) : Prop where
  ne_nil : names ≠ []
  isName : ∀ n ∈ names, IsName n
  noGit : strBytes ".git" ∉ names
  file : tree names = some .file
  isEbox : isEbox (pathOf root names) = true
  depth : names.length ≤ maxWalkDepth + 1

/-- Whether a walk may go into a directory. -/
def Visited (above : List Bytes) : Prop :=
  (∀ n ∈ above, IsName n) ∧ strBytes ".git" ∉ above ∧ above.length ≤ maxWalkDepth

/-- The parts of the name that an entry is shown with. -/
def shownParts : List Bytes → List String
  | [] => []
  | [name] => [(stripEboxSuffix (String.ofList (fromUtf8Lossy name))).getD ""]
  | name :: names => String.ofList (fromUtf8Lossy name) :: shownParts names

theorem shownParts_cons (name : Bytes) {names : List Bytes} (h : names ≠ []) :
    shownParts (name :: names) = String.ofList (fromUtf8Lossy name) :: shownParts names := by
  cases names with
  | nil => exact absurd rfl h
  | cons n names => rfl

/-- The nodes of a part of the tree stand for certain entries below a directory, in order. -/
def Stands (root : Bytes) (above : List Bytes) (nodes : List StoreTree) (entries : List (List Bytes)) :
    Prop :=
  (∀ out, pushEboxPaths nodes out =
      out ++ entries.map fun names => pathOf root (above ++ names)) ∧
    ∀ shown, shownEntries shown nodes =
      entries.map fun names => (shown ++ shownParts names, pathOf root (above ++ names))

theorem stands_nil (root : Bytes) (above : List Bytes) : Stands root above [] [] :=
  ⟨fun out => by rw [pushEboxPaths, List.map_nil, List.append_nil],
    fun _ => by rw [shownEntries, List.map_nil]⟩

theorem Stands.cons_ebox {root : Bytes} {above : List Bytes} {nodes : List StoreTree}
    {entries : List (List Bytes)} (h : Stands root above nodes entries) {raw : Bytes} {name : String}
    (hname : stripEboxSuffix (String.ofList (fromUtf8Lossy raw)) = some name) :
    Stands root above (.ebox name (pathOf root (above ++ [raw])) :: nodes) ([raw] :: entries) := by
  constructor
  · intro out
    rw [pushEboxPaths, h.1, List.map_cons, List.append_assoc]
    rfl
  · intro shown
    rw [shownEntries, h.2, List.map_cons, shownParts, hname]
    rfl

theorem Stands.cons_dir {root : Bytes} {above : List Bytes} {nodes children : List StoreTree}
    {entries below : List (List Bytes)} (h : Stands root above nodes entries) {raw : Bytes}
    (hbelow : Stands root (above ++ [raw]) children below) (hne : ∀ names ∈ below, names ≠ []) :
    Stands root above (.dir (String.ofList (fromUtf8Lossy raw)) children :: nodes)
      (below.map (raw :: ·) ++ entries) := by
  have hpath : ∀ names : List Bytes, above ++ [raw] ++ names = above ++ raw :: names := fun names => by
    rw [List.append_assoc, List.singleton_append]
  constructor
  · intro out
    rw [pushEboxPaths, hbelow.1, h.1, List.map_append, List.map_map, List.append_assoc]
    simp only [hpath, Function.comp_def]
  · intro shown
    rw [shownEntries, hbelow.2, h.2, List.map_append, List.map_map]
    refine congrArg (· ++ _) (List.map_congr_left fun names hnames => ?_)
    dsimp only [Function.comp]
    rw [shownParts_cons raw (hne names hnames), hpath, List.append_assoc, List.singleton_append]

/-! ## The entries of a directory -/

theorem mem_sortedEntries {dir : Bytes} {names : List Bytes} {entry : Bytes × Bytes} :
    entry ∈ sortedEntries dir names ↔
      entry.1 ∈ names ∧ entry.1 ≠ strBytes ".git" ∧ entry.2 = osJoin dir entry.1 := by
  rw [sortedEntries, List.mem_mergeSort, List.mem_map]
  constructor
  · rintro ⟨name, hname, rfl⟩
    rw [List.mem_filter] at hname
    exact ⟨hname.1, of_decide_eq_true hname.2, rfl⟩
  · rintro ⟨hmem, hgit, hpath⟩
    exact ⟨entry.1, List.mem_filter.mpr ⟨hmem, decide_eq_true hgit⟩, Prod.ext rfl hpath.symm⟩

theorem pairwise_sortedEntries {dir : Bytes} {names : List Bytes} (h : names.Nodup) :
    (sortedEntries dir names).Pairwise fun a b => a.1 < b.1 := by
  have hle : (sortedEntries dir names).Pairwise fun a b => decide (a.1 ≤ b.1) = true := by
    apply List.pairwise_mergeSort
    · intro a b c hab hbc
      exact decide_eq_true (List.le_trans (of_decide_eq_true hab) (of_decide_eq_true hbc))
    · intro a b
      rw [Bool.or_eq_true]
      exact (List.le_total a.1 b.1).imp decide_eq_true decide_eq_true
  have hne : (sortedEntries dir names).Pairwise fun a b => a.1 ≠ b.1 := by
    have hperm := (List.mergeSort_perm ((names.filter fun name => name ≠ strBytes ".git").map
      fun name => (name, osJoin dir name)) fun a b => decide (a.1 ≤ b.1)).symm
    refine (hperm.pairwise_iff fun hab => Ne.symm hab).mp ?_
    rw [List.pairwise_map]
    exact h.filter _
  refine (hle.and hne).imp ?_
  rintro a b ⟨hab, hne⟩
  exact (List.le_iff_lt_or_eq.mp (of_decide_eq_true hab)).resolve_right hne

/-- What a walk below a directory comes to: entries that are to be listed, in order, and all of
them when a directory that cannot be read is not shown empty. -/
structure Walks (root : Bytes) (tree : List Bytes → Option EntryKind) (unreadable : UnreadableSubdir)
    (above : List Bytes) (nodes : List StoreTree) (entries : List (List Bytes)) : Prop where
  stands : Stands root above nodes entries
  pairwise : entries.Pairwise (· < ·)
  listed : ∀ names ∈ entries, names ≠ [] ∧ Listed root tree (above ++ names)
  complete : unreadable = .fail → ∀ names, names ≠ [] → Listed root tree (above ++ names) →
    names ∈ entries

/-- What the node of an entry comes to: the entries under its name, in order, and all of them when a
directory that cannot be read is not shown empty. -/
structure NodeWalks (root : Bytes) (tree : List Bytes → Option EntryKind) (unreadable : UnreadableSubdir)
    (above : List Bytes) (name : Bytes) (node? : Option StoreTree) (below : List (List Bytes)) : Prop where
  stands : ∀ nodes rest, Stands root above nodes rest →
    Stands root above (node?.toList ++ nodes) (below.map (name :: ·) ++ rest)
  pairwise : below.Pairwise (· < ·)
  listed : ∀ names ∈ below, Listed root tree (above ++ name :: names)
  complete : unreadable = .fail → ∀ names, Listed root tree (above ++ name :: names) → names ∈ below

section

variable {files : Files} {root : Bytes} {tree : List Bytes → Option EntryKind}
  {unreadable : UnreadableSubdir}

/-- Below what is listed there are directories only. -/
theorem HasStore.dir_of_listed (h : HasStore files root tree) {above below : List Bytes}
    (hne : below ≠ []) (hlisted : tree (above ++ below) ≠ none) : tree above = some .dir := by
  induction below using List.reverseRecOn with
  | nil => exact absurd rfl hne
  | append_singleton below n ih =>
    rw [← List.append_assoc] at hlisted
    have hdir := h.closed (above ++ below) n hlisted
    cases below with
    | nil => rwa [List.append_nil] at hdir
    | cons b below => exact ih (List.cons_ne_nil _ _) (by rw [hdir]; exact Option.some_ne_none _)

/-- The nodes of some of the entries of a directory stand for what is listed under their names. -/
theorem entryNodes_walks {above : List Bytes}
    {node : Bytes × Bytes → Except WalkError (Option StoreTree)} {entries : List (Bytes × Bytes)}
    (hsorted : entries.Pairwise fun a b => a.1 < b.1)
    (hnode : ∀ entry ∈ entries, ∀ node?, node entry = .ok node? →
      ∃ below, NodeWalks root tree unreadable above entry.1 node? below)
    {nodes : List StoreTree} (h : entryNodes node entries = .ok nodes) :
    ∃ found : List (List Bytes), Stands root above nodes found ∧ found.Pairwise (· < ·) ∧
      (∀ names ∈ found, ∃ entry ∈ entries, ∃ rest, names = entry.1 :: rest ∧
        Listed root tree (above ++ names)) ∧
      (unreadable = .fail → ∀ entry ∈ entries, ∀ rest,
        Listed root tree (above ++ entry.1 :: rest) → entry.1 :: rest ∈ found) := by
  induction entries generalizing nodes with
  | nil =>
    cases h
    exact ⟨[], stands_nil root above, .nil, nofun, nofun⟩
  | cons entry entries ih =>
    rw [entryNodes] at h
    obtain ⟨node?, hn, h⟩ := bind_ok.mp h
    obtain ⟨nodes', hns, h⟩ := bind_ok.mp h
    cases h
    rw [List.pairwise_cons] at hsorted
    obtain ⟨found, hstands, hpairwise, hfound, hcomplete⟩ :=
      ih hsorted.2 (fun e he => hnode e (List.mem_cons_of_mem _ he)) hns
    obtain ⟨below, hextend, hbelow, hlisted, hall⟩ := hnode entry List.mem_cons_self node? hn
    refine ⟨below.map (entry.1 :: ·) ++ found, hextend _ _ hstands, ?_, ?_, ?_⟩
    · refine List.pairwise_append.mpr ⟨?_, hpairwise, ?_⟩
      · rw [List.pairwise_map]
        exact hbelow.imp fun hab => List.Lex.cons hab
      · intro a ha b hb
        obtain ⟨names, -, rfl⟩ := List.mem_map.mp ha
        obtain ⟨e, he, rest, rfl, -⟩ := hfound b hb
        exact List.Lex.rel (hsorted.1 e he)
    · intro names hnames
      rcases List.mem_append.mp hnames with hmem | hmem
      · obtain ⟨rest, hrest, rfl⟩ := List.mem_map.mp hmem
        exact ⟨entry, List.mem_cons_self, rest, rfl, hlisted rest hrest⟩
      · obtain ⟨e, he, rest, hrest⟩ := hfound names hmem
        exact ⟨e, List.mem_cons_of_mem _ he, rest, hrest⟩
    · intro hfail e he rest hrest
      rcases List.mem_cons.mp he with rfl | he
      · exact List.mem_append_left _ (List.mem_map_of_mem (hall hfail rest hrest))
      · exact List.mem_append_right _ (hcomplete hfail e he rest hrest)

/-- Under an entry that is no directory only the entry itself is listed. -/
theorem HasStore.listed_cases (h : HasStore files root tree) {above names : List Bytes} {n : Bytes}
    (hlisted : Listed root tree (above ++ n :: names)) :
    names = [] ∧ tree (above ++ [n]) = some .file ∨ names ≠ [] ∧ tree (above ++ [n]) = some .dir := by
  have hfile := hlisted.file
  rw [List.append_cons] at hfile
  by_cases hnil : names = []
  · rw [hnil, List.append_nil] at hfile
    exact .inl ⟨hnil, hfile⟩
  · exact .inr ⟨hnil, h.dir_of_listed hnil (by rw [hfile]; exact Option.some_ne_none _)⟩

theorem NodeWalks.none {above : List Bytes} {n : Bytes}
    (h : ∀ names, ¬ Listed root tree (above ++ n :: names)) :
    NodeWalks root tree unreadable above n none [] :=
  ⟨fun _ _ hrest => hrest, .nil, nofun, fun _ names hlisted => absurd hlisted (h names)⟩

/-- The node of a directory stands for what the walk below it finds. -/
theorem Walks.node (h : HasStore files root tree) {above : List Bytes} {n : Bytes}
    (hkind : tree (above ++ [n]) = some .dir) {children : List StoreTree} {below : List (List Bytes)}
    (hw : Walks root tree unreadable (above ++ [n]) children below) :
    NodeWalks root tree unreadable above n (some (.dir (String.ofList (fromUtf8Lossy n)) children))
      below := by
  refine ⟨fun nodes rest hrest => ?_, hw.pairwise, ?_, ?_⟩
  · exact hrest.cons_dir hw.stands fun names hmem => (hw.listed names hmem).1
  · intro names hmem
    rw [List.append_cons]
    exact (hw.listed names hmem).2
  · intro hfail names hlisted
    rcases h.listed_cases hlisted with ⟨-, hkind'⟩ | ⟨hne, -⟩
    · cases hkind.symm.trans hkind'
    · rw [List.append_cons] at hlisted
      exact hw.complete hfail names hne hlisted

/-- The node of an ebox stands for it. -/
theorem nodeWalks_ebox (h : HasStore files root tree) {above : List Bytes} (hvisited : Visited above)
    {n : Bytes} (hnames : ∀ m ∈ above ++ [n], IsName m) (hgit : n ≠ strBytes ".git")
    (hkind : tree (above ++ [n]) = some .file) (hebox : isEbox (pathOf root (above ++ [n])) = true)
    {name : String} (hname : stripEboxSuffix (String.ofList (fromUtf8Lossy n)) = some name) :
    NodeWalks root tree unreadable above n (some (.ebox name (pathOf root (above ++ [n])))) [[]] := by
  refine ⟨fun nodes rest hrest => hrest.cons_ebox hname, List.pairwise_singleton .., ?_, ?_⟩
  · intro names hmem
    rw [List.mem_singleton.mp hmem]
    refine ⟨by simp, hnames, ?_, hkind, hebox, ?_⟩
    · rw [List.mem_append, not_or, List.mem_singleton]
      exact ⟨hvisited.2.1, Ne.symm hgit⟩
    · rw [List.length_append]
      exact Nat.add_le_add_right hvisited.2.2 1
  · intro _ names hlisted
    rcases h.listed_cases hlisted with ⟨hnil, -⟩ | ⟨-, hkind'⟩
    · exact List.mem_singleton.mpr hnil
    · cases hkind.symm.trans hkind'

/-- The node of an entry stands for what is listed under its name. -/
theorem entryNode_walks (h : HasStore files root tree) {above : List Bytes} (hvisited : Visited above)
    {n : Bytes} (hn : IsName n) (hgit : n ≠ strBytes ".git")
    {walk : Bytes → Except WalkError (List StoreTree)}
    (hwalk : ∀ children, walk (pathOf root (above ++ [n])) = .ok children →
      ∃ below, Walks root tree unreadable (above ++ [n]) children below)
    {node? : Option StoreTree}
    (hnode : entryNode files unreadable walk (n, pathOf root (above ++ [n])) = .ok node?) :
    ∃ below, NodeWalks root tree unreadable above n node? below := by
  have hnames : ∀ m ∈ above ++ [n], IsName m := by
    intro m hm
    rcases List.mem_append.mp hm with hm | hm
    · exact hvisited.1 m hm
    · rw [List.mem_singleton.mp hm]
      exact hn
  rw [entryNode] at hnode
  dsimp only at hnode
  rw [h.metadata _ hnames] at hnode
  cases hkind : tree (above ++ [n]) with
  | none =>
    rw [hkind] at hnode
    cases hnode
    refine ⟨[], .none fun names hlisted => ?_⟩
    rcases h.listed_cases hlisted with ⟨-, hkind'⟩ | ⟨-, hkind'⟩ <;> cases hkind.symm.trans hkind'
  | some kind =>
    rw [hkind] at hnode
    dsimp only at hnode
    split at hnode
    · next hdir =>
      subst hdir
      cases hchildren : walk (pathOf root (above ++ [n])) with
      | ok children =>
        rw [hchildren] at hnode
        cases hnode
        obtain ⟨below, hw⟩ := hwalk children hchildren
        exact ⟨below, hw.node h hkind⟩
      | error e =>
        rw [hchildren] at hnode
        cases e with
        | panic => cases unreadable <;> cases hnode
        | io text =>
          cases unreadable with
          | fail => cases hnode
          | showEmpty =>
            cases hnode
            refine ⟨[], fun nodes rest hrest => ?_, .nil, nofun, nofun⟩
            exact hrest.cons_dir (stands_nil root _) nofun
    · next hdir =>
      split at hnode
      · next hebox =>
        obtain ⟨rfl, hebox⟩ := hebox
        split at hnode
        · cases hnode
        · next name hname =>
          cases hnode
          exact ⟨[[]], nodeWalks_ebox h hvisited hnames hgit hkind hebox hname⟩
      · next hebox =>
        cases hnode
        refine ⟨[], .none fun names hlisted => ?_⟩
        rcases h.listed_cases hlisted with ⟨rfl, hkind'⟩ | ⟨-, hkind'⟩
        · exact hebox ⟨Option.some.inj (hkind.symm.trans hkind'), hlisted.isEbox⟩
        · exact hdir (Option.some.inj (hkind.symm.trans hkind'))

/-- What a walk below a directory finds. -/
theorem walkAt_walks (h : HasStore files root tree) {above : List Bytes}
    (hnames : ∀ n ∈ above, IsName n) (hgit : strBytes ".git" ∉ above) {nodes : List StoreTree}
    (hwalk : walkAt files unreadable (pathOf root above) above.length = .ok nodes) :
    ∃ entries, Walks root tree unreadable above nodes entries := by
  induction hk : maxWalkDepth + 1 - above.length generalizing above nodes with
  | zero =>
    rw [walkAt, dif_pos (.inl (by omega))] at hwalk
    cases hwalk
    refine ⟨[], stands_nil root above, .nil, nofun, fun _ names hne hlisted => ?_⟩
    have hdepth := hlisted.depth
    have hpos := List.length_pos_of_ne_nil hne
    rw [List.length_append] at hdepth
    omega
  | succ k ih =>
    rw [walkAt] at hwalk
    split at hwalk
    · next hstop =>
      cases hwalk
      refine ⟨[], stands_nil root above, .nil, nofun, fun _ names hne hlisted => ?_⟩
      have hdir : tree above = some .dir := h.dir_of_listed hne (by
        rw [hlisted.file]
        exact Option.some_ne_none _)
      rcases hstop with hdepth | hmeta
      · omega
      · exact absurd ((h.metadata above hnames).trans hdir) hmeta
    next hstop =>
    have hdir : tree above = some .dir := by
      rw [← h.metadata above hnames]
      exact Decidable.not_not.mp fun hno => hstop (.inr hno)
    have hvisited : Visited above := ⟨hnames, hgit, by omega⟩
    cases hread : files.readDir (pathOf root above) with
    | error e =>
      rw [hread] at hwalk
      cases hwalk
    | ok children =>
      rw [hread] at hwalk
      dsimp only at hwalk
      obtain ⟨hnodup, hchildren, hall⟩ := h.readDir above children hnames hdir hread
      have hentry : ∀ entry ∈ sortedEntries (pathOf root above) children,
          entry = (entry.1, pathOf root (above ++ [entry.1])) := by
        intro entry hmem
        obtain ⟨-, -, hpath⟩ := mem_sortedEntries.mp hmem
        exact Prod.ext rfl (by rw [hpath, pathOf_append]; rfl)
      obtain ⟨found, hstands, hpairwise, hfound, hcomplete⟩ :=
        entryNodes_walks (pairwise_sortedEntries hnodup)
          (fun entry hmem node? hnode => by
            obtain ⟨hn, hne, -⟩ := mem_sortedEntries.mp hmem
            have hname := hchildren _ hn
            rw [hentry entry hmem] at hnode
            refine entryNode_walks h hvisited hname hne (fun below hbelow => ?_) hnode
            refine ih ?_ ?_ ?_ ?_
            · intro m hm
              rcases List.mem_append.mp hm with hm | hm
              · exact hnames m hm
              · rw [List.mem_singleton.mp hm]
                exact hname
            · rw [List.mem_append, not_or, List.mem_singleton]
              exact ⟨hgit, Ne.symm hne⟩
            · rw [List.length_append]
              exact hbelow
            · rw [List.length_append, List.length_singleton]
              omega)
          hwalk
      refine ⟨found, hstands, hpairwise, fun names hmem => ?_, fun hfail names hne hlisted => ?_⟩
      · obtain ⟨entry, -, rest, rfl, hlisted⟩ := hfound names hmem
        exact ⟨List.cons_ne_nil _ _, hlisted⟩
      · obtain ⟨n, rest, rfl⟩ := List.exists_cons_of_ne_nil hne
        have hn : IsName n := hlisted.isName n (by simp)
        have hngit : n ≠ strBytes ".git" := by
          rintro rfl
          exact hlisted.noGit (by simp)
        have hsome : tree (above ++ [n]) ≠ none := by
          rcases h.listed_cases hlisted with ⟨-, hkind⟩ | ⟨-, hkind⟩ <;> rw [hkind] <;>
            exact Option.some_ne_none _
        have hmem : (n, pathOf root (above ++ [n])) ∈ sortedEntries (pathOf root above) children :=
          mem_sortedEntries.mpr ⟨hall n hn hsome, hngit, by rw [pathOf_append]; rfl⟩
        exact hcomplete hfail _ hmem rest hlisted

end

end Piggy.Store
