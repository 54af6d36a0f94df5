import Piggy.Store.Suffix

/-!
# What is listed and what is found

A listing shows an ebox by the names on the way to it, with the suffix cut off; an entry is
looked up with the suffix appended. The two agree on names that are typed as they are shown:
a suffix in other letters, bytes that are no text, and names that leave the tree are on one
side only.
-/

namespace Piggy.Store

open Piggy.Core
open Piggy.Box (Bytes strBytes strBytes_ofList strBytes_inj fromUtf8 fromUtf8_ok fromUtf8Lossy)

/-! ## The walk succeeds -/

/-- Every directory that a walk goes into can be read. -/
def Readable (files : Files) (root : Bytes) (tree : List Bytes → Option EntryKind) : Prop :=
  ∀ above, Visited above → tree above = some .dir →
    ∃ children, files.readDir (pathOf root above) = .ok children

section

variable {files : Files} {root : Bytes} {tree : List Bytes → Option EntryKind}
  {unreadable : UnreadableSubdir}

theorem entryNodes_ok {node : Bytes × Bytes → Except WalkError (Option StoreTree)}
    {entries : List (Bytes × Bytes)} (h : ∀ entry ∈ entries, ∃ node?, node entry = .ok node?) :
    ∃ nodes, entryNodes node entries = .ok nodes := by
  induction entries with
  | nil => exact ⟨[], rfl⟩
  | cons entry entries ih =>
    obtain ⟨node?, hnode⟩ := h entry List.mem_cons_self
    obtain ⟨nodes, hnodes⟩ := ih fun e he => h e (List.mem_cons_of_mem _ he)
    exact ⟨node?.toList ++ nodes, by rw [entryNodes, hnode, ok_bind, hnodes, ok_bind]⟩

theorem entryNode_ok (hroot : root ≠ []) {above : List Bytes} {n : Bytes}
    (hnames : ∀ m ∈ above ++ [n], IsName m) {walk : Bytes → Except WalkError (List StoreTree)}
    (hwalk : ∃ children, walk (pathOf root (above ++ [n])) = .ok children) :
    ∃ node?, entryNode files unreadable walk (n, pathOf root (above ++ [n])) = .ok node? := by
  rw [entryNode]
  dsimp only
  cases files.metadata (pathOf root (above ++ [n])) with
  | none => exact ⟨_, rfl⟩
  | some kind =>
    dsimp only
    split
    · obtain ⟨children, hchildren⟩ := hwalk
      rw [hchildren]
      exact ⟨_, rfl⟩
    · split
      · next hebox =>
        obtain ⟨stem, ext, -, hname, hext⟩ := (isEbox_iff (osFileName_pathOf hroot hnames)).mp hebox.2
        obtain ⟨front, -, hstrip⟩ := stripEboxSuffix_ok stem hext
        rw [hname, hstrip]
        exact ⟨_, rfl⟩
      · exact ⟨_, rfl⟩

/-- A walk over a readable tree succeeds. -/
theorem walkAt_ok (h : HasStore files root tree) (hreadable : Readable files root tree)
    {above : List Bytes} (hnames : ∀ n ∈ above, IsName n) (hgit : strBytes ".git" ∉ above) :
    ∃ nodes, walkAt files unreadable (pathOf root above) above.length = .ok nodes := by
  induction hk : maxWalkDepth + 1 - above.length generalizing above with
  | zero =>
    rw [walkAt, dif_pos (.inl (by omega))]
    exact ⟨_, rfl⟩
  | succ k ih =>
    rw [walkAt]
    split
    · exact ⟨_, rfl⟩
    next hgo =>
    have hdir : tree above = some .dir := by
      rw [← h.metadata above hnames]
      exact Decidable.not_not.mp fun hno => hgo (.inr hno)
    obtain ⟨children, hread⟩ := hreadable above ⟨hnames, hgit, by omega⟩ hdir
    obtain ⟨-, hchildren, -⟩ := h.readDir above children hnames hdir hread
    rw [hread]
    refine entryNodes_ok fun entry hmem => ?_
    obtain ⟨hn, hne, hpath⟩ := mem_sortedEntries.mp hmem
    have hall : ∀ m ∈ above ++ [entry.1], IsName m := by
      intro m hm
      rcases List.mem_append.mp hm with hm | hm
      · exact hnames m hm
      · rw [List.mem_singleton.mp hm]
        exact hchildren _ hn
    have hentry : entry = (entry.1, pathOf root (above ++ [entry.1])) :=
      Prod.ext rfl (by rw [hpath, pathOf_append]; rfl)
    rw [hentry]
    refine entryNode_ok h.root_ne hall ?_
    have hlength : above.length + 1 = (above ++ [entry.1]).length := by
      rw [List.length_append, List.length_singleton]
    rw [hlength]
    refine ih hall ?_ ?_
    · rw [List.mem_append, not_or, List.mem_singleton]
      exact ⟨hgit, Ne.symm hne⟩
    · rw [List.length_append, List.length_singleton]
      omega

/-! ## Names as they are typed -/

/-- The file names of an entry with a typed name: the directories, and the suffix appended. -/
def typedNames (parts : List String) (stem : String) : List Bytes :=
  parts.map strBytes ++ [strBytes (stem ++ ".ebox")]

theorem strBytes_append (s t : String) : strBytes (s ++ t) = strBytes s ++ strBytes t := by
  rw [strBytes_eq_utf8, strBytes_eq_utf8, strBytes_eq_utf8, String.toList_append, utf8_append]

theorem fromUtf8Lossy_strBytes (s : String) : String.ofList (fromUtf8Lossy (strBytes s)) = s := by
  have hok : fromUtf8 (strBytes s) = .ok s := fromUtf8_ok.mpr rfl
  rw [fromUtf8Lossy, hok]
  exact String.ofList_toList

/-- A typed name is shown as it is typed. -/
theorem shownParts_typedNames (parts : List String) (stem : String) :
    shownParts (typedNames parts stem) = parts ++ [stem] := by
  induction parts with
  | nil =>
    have hstrip : stripEboxSuffix (stem ++ ".ebox") = some stem := by
      have hbytes : strBytes (stem ++ ".ebox") = strBytes stem ++ strBytes ".ebox" :=
        strBytes_append stem ".ebox"
      rw [stripEboxSuffix, hbytes, List.length_append, Nat.add_sub_cancel, List.take_left,
        List.drop_left, fromUtf8_ok.mpr rfl, if_pos (Nat.le_add_left _ _)]
      exact if_pos (decide_eq_true rfl)
    rw [typedNames, List.map_nil, List.nil_append, shownParts, fromUtf8Lossy_strBytes, hstrip]
    rfl
  | cons part parts ih =>
    have hne : typedNames parts stem ≠ [] := by simp [typedNames]
    rw [show typedNames (part :: parts) stem = strBytes part :: typedNames parts stem from rfl,
      shownParts_cons _ hne, ih, fromUtf8Lossy_strBytes]
    rfl

/-- Names with slashes between them. -/
def joinNames : List Bytes → Bytes
  | [] => []
  | [name] => name
  | name :: names => name ++ slash :: joinNames names

theorem joinNames_cons (name : Bytes) {names : List Bytes} (h : names ≠ []) :
    joinNames (name :: names) = name ++ slash :: joinNames names := by
  cases names with
  | nil => exact absurd rfl h
  | cons n names => rfl

theorem entryName_cons (part : String) {parts : List String} (h : parts ≠ []) :
    entryName (part :: parts) = part ++ "/" ++ entryName parts := by
  cases parts with
  | nil => exact absurd rfl h
  | cons p parts => rfl

/-- The bytes of a typed name with the suffix. -/
theorem strBytes_entryName (parts : List String) (stem : String) :
    strBytes (entryName (parts ++ [stem]) ++ ".ebox") = joinNames (typedNames parts stem) := by
  induction parts with
  | nil => rfl
  | cons part parts ih =>
    have hslash : strBytes "/" = [slash] := by decide +kernel
    rw [strBytes_append] at ih
    rw [List.cons_append, entryName_cons part (by simp), strBytes_append, strBytes_append,
      strBytes_append, List.append_assoc, ih, hslash, List.append_assoc]
    exact (joinNames_cons (strBytes part) (by simp [typedNames])).symm

/-- Joining a path of names joins them one by one. -/
theorem osJoin_joinNames {root : Bytes} (hroot : root ≠ []) {names : List Bytes} (hne : names ≠ [])
    (h : ∀ n ∈ names, IsName n) : osJoin root (joinNames names) = pathOf root names := by
  induction names generalizing root with
  | nil => exact absurd rfl hne
  | cons n names ih =>
    have hn := h n List.mem_cons_self
    by_cases hnil : names = []
    · rw [hnil]
      rfl
    have hrest : ∀ m ∈ names, IsName m := fun m hm => h m (List.mem_cons_of_mem _ hm)
    have hhead : (joinNames names).head? ≠ some slash := by
      obtain ⟨m, ms, rfl⟩ := List.exists_cons_of_ne_nil hnil
      have hm := hrest m List.mem_cons_self
      by_cases hms : ms = []
      · rw [hms]
        exact hm.head_ne
      · rw [joinNames_cons m hms, List.head?_append_of_ne_nil _ hm.1]
        exact hm.head_ne
    have hhead' : (n ++ slash :: joinNames names).head? ≠ some slash := by
      rw [List.head?_append_of_ne_nil _ hn.1]
      exact hn.head_ne
    -- the path with one more name does not end in a slash
    have hlast : (osJoin root n).getLast? ≠ some slash := by
      have hend : ∀ front : Bytes, (front ++ slash :: n).getLast? = n.getLast? := by
        intro front
        rw [List.getLast?_append, List.getLast?_cons, List.getLast?_eq_some_getLast hn.1]
        rfl
      have hn' : n.getLast? ≠ some slash := fun hs => hn.2.1 (List.mem_of_getLast? hs)
      rcases osJoin_name hroot hn with ⟨front, -, hjoin⟩ | hjoin <;> rw [hjoin, hend] <;> exact hn'
    rw [joinNames_cons n hnil, pathOf, List.foldl_cons, ← pathOf, ← ih (osJoin_ne_nil hroot hn) hnil hrest]
    rw [osJoin, if_neg hhead', if_neg hroot]
    rw [osJoin, if_neg hhead, if_neg (osJoin_ne_nil hroot hn), if_neg hlast]
    rw [osJoin, if_neg hn.head_ne, if_neg hroot]
    split
    · rw [List.append_assoc]
    · rw [List.append_assoc]
      rfl

/-- A name whose parts are names of files. -/
def IsTyped (parts : List String) (stem : String) : Prop := ∀ n ∈ typedNames parts stem, IsName n

/-- A name is looked up where its parts lead. -/
theorem findEntryIn_entryName (h : HasStore files root tree) {parts : List String} {stem : String}
    (htyped : IsTyped parts stem) :
    findEntryIn files [root] (entryName (parts ++ [stem])) =
      if tree (typedNames parts stem) = some .file then some (pathOf root (typedNames parts stem))
      else none := by
  have hpath : osJoin root (strBytes (entryName (parts ++ [stem]) ++ ".ebox")) =
      pathOf root (typedNames parts stem) := by
    rw [strBytes_entryName, osJoin_joinNames h.root_ne (by simp [typedNames]) htyped]
  rw [findEntryIn, List.map_singleton, hpath, List.find?_singleton, Files.isFile,
    h.metadata _ htyped]
  simp

/-! ## Both views -/

/-- A name of at most so many directories, none of them git's, that stays below the root. -/
def PlainName (name : String) : Prop :=
  ∃ parts stem, name = entryName (parts ++ [stem]) ∧
    (∀ part ∈ parts, IsName (strBytes part) ∧ part ≠ ".git") ∧
    stem ≠ "" ∧ slash ∉ strBytes stem ∧ parts.length ≤ maxWalkDepth

/-- What a listing shows is found under the name it shows, when that can be typed. -/
def ShownFound (files : Files) (root : Bytes) (nodes : List StoreTree) : Prop :=
  ∀ shown path, (shown, path) ∈ shownEntries [] nodes → ∀ parts stem, IsTyped parts stem →
    path = pathOf root (typedNames parts stem) → findEntryIn files [root] (entryName shown) = some path

/-- Each ebox is listed once, in the order of the paths, and plain names that are found are
listed. -/
structure ListsExactly (files : Files) (root : Bytes) (tree : List Bytes → Option EntryKind)
    (nodes : List StoreTree) : Prop where
  collected : collectEboxes files root = .ok (eboxPaths nodes)
  listed : ∀ path, path ∈ eboxPaths nodes ↔ ∃ names, Listed root tree names ∧ path = pathOf root names
  nodup : (eboxPaths nodes).Nodup
  pairwise : (eboxPaths nodes).Pairwise PathBefore
  found : ∀ name path, PlainName name → findEntryIn files [root] name = some path →
    ∃ shown, (shown, path) ∈ shownEntries [] nodes ∧ entryName shown = name

/-- The names of a plain name can be names of files, and what is found under them is listed. -/
theorem PlainName.typed (h : HasStore files root tree) {name : String} (hplain : PlainName name) :
    ∃ parts stem, name = entryName (parts ++ [stem]) ∧ IsTyped parts stem ∧
      (tree (typedNames parts stem) = some .file → Listed root tree (typedNames parts stem)) := by
  obtain ⟨parts, stem, hname, hparts, hstem, hslash, hdepth⟩ := hplain
  have hbytes : strBytes (stem ++ ".ebox") = strBytes stem ++ dot :: strBytes "ebox" := by
    rw [strBytes_append, strBytes_dotEbox]
  have hstem' : strBytes stem ≠ [] := fun h => hstem (strBytes_inj (h.trans (by decide +kernel)))
  have hlength : 5 ≤ (strBytes (stem ++ ".ebox")).length := by
    rw [hbytes, strBytes_ebox, List.length_append]
    exact Nat.le_add_left _ _
  have hlast : IsName (strBytes (stem ++ ".ebox")) := by
    refine ⟨List.ne_nil_of_length_pos (by omega), ?_, ?_, ?_⟩
    · rw [hbytes, strBytes_ebox, List.mem_append, not_or]
      exact ⟨hslash, by decide⟩
    · intro h
      rw [h] at hlength
      exact absurd hlength (by decide)
    · intro h
      rw [h] at hlength
      exact absurd hlength (by decide)
  have htyped : IsTyped parts stem := by
    intro n hn
    rcases List.mem_append.mp hn with hn | hn
    · obtain ⟨part, hpart, rfl⟩ := List.mem_map.mp hn
      exact (hparts part hpart).1
    · rw [List.mem_singleton.mp hn]
      exact hlast
  refine ⟨parts, stem, hname, htyped, fun hfile => ⟨by simp [typedNames], htyped, ?_, hfile, ?_, ?_⟩⟩
  · intro hgit
    rcases List.mem_append.mp hgit with hgit | hgit
    · obtain ⟨part, hpart, heq⟩ := List.mem_map.mp hgit
      exact (hparts part hpart).2 (strBytes_inj heq)
    · have heq : strBytes ".git" = strBytes (stem ++ ".ebox") := List.mem_singleton.mp hgit
      have hlast' := congrArg List.getLast? heq
      have hgitLast : (strBytes ".git").getLast? = some 0x74 := by decide +kernel
      rw [hbytes, strBytes_ebox, List.getLast?_append, hgitLast] at hlast'
      exact absurd (Option.some.inj hlast') (by decide)
  · refine (isEbox_iff (osFileName_pathOf h.root_ne htyped)).mpr
      ⟨strBytes stem, strBytes "ebox", hstem', hbytes, decide_eq_true rfl⟩
  · rw [typedNames, List.length_append, List.length_map]
    exact Nat.add_le_add_right hdepth 1

/-- What the walk lists, and what of it is found. -/
theorem walkTree_listsExactly (h : HasStore files root tree) :
    (Readable files root tree → ∀ unreadable, ∃ nodes, walkTree files root unreadable = .ok nodes) ∧
      (∀ unreadable nodes, walkTree files root unreadable = .ok nodes → ShownFound files root nodes) ∧
      ∀ nodes, walkTree files root .fail = .ok nodes → ListsExactly files root tree nodes := by
  refine ⟨fun hreadable unreadable => ?_, fun unreadable nodes hwalk => ?_, fun nodes hwalk => ?_⟩
  · have hok : ∃ nodes, walkAt files unreadable (pathOf root []) ([] : List Bytes).length = .ok nodes :=
      walkAt_ok h hreadable (List.forall_mem_nil _) List.not_mem_nil
    exact hok
  · obtain ⟨entries, hw⟩ : ∃ entries, Walks root tree _ [] nodes entries :=
      walkAt_walks h (List.forall_mem_nil _) List.not_mem_nil hwalk
    intro shown path hmem parts stem htyped hpath
    rw [hw.stands.2, List.mem_map] at hmem
    obtain ⟨names, hnames, heq⟩ := hmem
    obtain ⟨rfl, rfl⟩ := Prod.mk.inj heq
    obtain ⟨-, hlisted⟩ := hw.listed names hnames
    rw [List.nil_append] at hlisted hpath
    obtain rfl := pathOf_inj h.root_ne hlisted.isName htyped hpath
    rw [List.nil_append, shownParts_typedNames, findEntryIn_entryName h htyped, if_pos hlisted.file]
    rfl
  · obtain ⟨entries, hw⟩ : ∃ entries, Walks root tree _ [] nodes entries :=
      walkAt_walks h (List.forall_mem_nil _) List.not_mem_nil hwalk
    have hpaths : eboxPaths nodes = entries.map (pathOf root) := hw.stands.1 []
    have hlisted : ∀ names, names ∈ entries ↔ Listed root tree names := by
      intro names
      constructor
      · exact fun hmem => (hw.listed names hmem).2
      · exact fun hlisted => hw.complete rfl names hlisted.ne_nil hlisted
    have hname : ∀ names ∈ entries, ∀ n ∈ names, IsName n := fun names hmem =>
      ((hlisted names).mp hmem).isName
    refine ⟨?_, ?_, ?_, ?_, ?_⟩
    · rw [collectEboxes, hwalk]
      rfl
    · intro path
      rw [hpaths, List.mem_map]
      constructor
      · rintro ⟨names, hmem, rfl⟩
        exact ⟨names, (hlisted names).mp hmem, rfl⟩
      · rintro ⟨names, hmem, rfl⟩
        exact ⟨names, (hlisted names).mpr hmem, rfl⟩
    · rw [hpaths, List.Nodup, List.pairwise_map]
      refine (List.Pairwise.and_mem.mp hw.pairwise).imp ?_
      rintro a b ⟨ha, hb, hab⟩ heq
      obtain rfl := pathOf_inj h.root_ne (hname a ha) (hname b hb) heq
      exact List.lt_irrefl a hab
    · rw [hpaths, List.pairwise_map]
      refine (List.Pairwise.and_mem.mp hw.pairwise).imp ?_
      rintro a b ⟨ha, hb, hab⟩
      exact pathBefore_pathOf h.root_ne (hname a ha) (hname b hb) hab
    · intro name path hplain hfound
      obtain ⟨parts, stem, rfl, htyped, htree⟩ := hplain.typed h
      rw [findEntryIn_entryName h htyped] at hfound
      split at hfound
      next hfile =>
        cases hfound
        refine ⟨shownParts (typedNames parts stem), ?_, by rw [shownParts_typedNames]⟩
        rw [hw.stands.2, List.mem_map]
        exact ⟨typedNames parts stem, (hlisted _).mpr (htree hfile), rfl⟩
      · cases hfound

end

/-! ## A store of one file -/

def sampleRoot : Bytes := [slash, 0x73]

def sampleTree (name : Bytes) (names : List Bytes) : Option EntryKind :=
  if names = [] then some .dir else if names = [name] then some .file else none

def sampleFiles (name : Bytes) : Files where
  metadata p :=
    if osComponents p = osComponents (pathOf sampleRoot []) then some .dir
    else if osComponents p = osComponents (pathOf sampleRoot [name]) then some .file
    else none
  readDir p :=
    if osComponents p = osComponents (pathOf sampleRoot []) then .ok [name]
    else .error "Not a directory (os error 20)"

theorem sampleFiles_hasStore {name : Bytes} (hname : IsName name) :
    HasStore (sampleFiles name) sampleRoot (sampleTree name) where
  root_ne := List.cons_ne_nil _ _
  metadata names hnames := by
    have hroot : sampleRoot ≠ [] := List.cons_ne_nil _ _
    simp only [sampleFiles, sampleTree, osComponents_pathOf_inj hroot hnames (List.forall_mem_nil _),
      osComponents_pathOf_inj hroot hnames (List.forall_mem_singleton.mpr hname)]
  readDir above children _ hdir hread := by
    rw [sampleTree] at hdir
    split at hdir
    next hnil =>
      subst hnil
      cases hread
      refine ⟨List.pairwise_singleton .., List.forall_mem_singleton.mpr hname, ?_⟩
      intro n _ hsome
      rw [List.nil_append, sampleTree, if_neg (List.cons_ne_nil _ _)] at hsome
      split at hsome
      next heq => exact List.mem_singleton.mpr (List.singleton_inj.mp heq)
      · exact absurd rfl hsome
    · split at hdir <;> cases hdir
  closed above n hsome := by
    rw [sampleTree, if_neg (by simp)] at hsome
    split at hsome
    next heq =>
      cases above with
      | nil => rfl
      | cons m above => simp at heq
    · exact absurd rfl hsome

theorem sampleFiles_readable (name : Bytes) :
    Readable (sampleFiles name) sampleRoot (sampleTree name) := by
  intro above _ hdir
  rw [sampleTree] at hdir
  split at hdir
  next hnil =>
    subst hnil
    exact ⟨[name], rfl⟩
  · split at hdir <;> cases hdir

/-- A store of one ebox is walked. -/
theorem walkTree_listsExactly_sample : ∃ nodes,
    walkTree (sampleFiles (strBytes "x.ebox")) sampleRoot .fail = .ok nodes ∧
      ShownFound (sampleFiles (strBytes "x.ebox")) sampleRoot nodes ∧
      ListsExactly (sampleFiles (strBytes "x.ebox")) sampleRoot (sampleTree (strBytes "x.ebox")) nodes := by
  have h := walkTree_listsExactly (sampleFiles_hasStore (show IsName (strBytes "x.ebox") by decide +kernel))
  obtain ⟨nodes, hnodes⟩ := h.1 (sampleFiles_readable _) .fail
  exact ⟨nodes, hnodes, h.2.1 _ _ hnodes, h.2.2 _ hnodes⟩

/-- A store of one file is walked. -/
theorem walks_sampleFiles {name : Bytes} (hname : IsName name) :
    ∃ nodes entries, walkTree (sampleFiles name) sampleRoot .fail = .ok nodes ∧
      Walks sampleRoot (sampleTree name) .fail [] nodes entries := by
  have h := sampleFiles_hasStore hname
  obtain ⟨nodes, hnodes⟩ : ∃ nodes, walkAt (sampleFiles name) .fail (pathOf sampleRoot [])
      ([] : List Bytes).length = .ok nodes :=
    walkAt_ok h (sampleFiles_readable _) (List.forall_mem_nil _) List.not_mem_nil
  obtain ⟨entries, hw⟩ := walkAt_walks h (List.forall_mem_nil _) List.not_mem_nil hnodes
  exact ⟨nodes, entries, hnodes, hw⟩

/-- A file with the suffix in capitals is listed, under a name that finds nothing; and the empty
name finds a file that is not listed. -/
theorem not_found_capitals :
    (HasStore (sampleFiles (strBytes "X.EBOX")) sampleRoot (sampleTree (strBytes "X.EBOX")) ∧
      ∃ nodes, walkTree (sampleFiles (strBytes "X.EBOX")) sampleRoot .fail = .ok nodes ∧
        (["X"], pathOf sampleRoot [strBytes "X.EBOX"]) ∈ shownEntries [] nodes ∧
        findEntryIn (sampleFiles (strBytes "X.EBOX")) [sampleRoot] (entryName ["X"]) = none) ∧
    HasStore (sampleFiles (strBytes ".ebox")) sampleRoot (sampleTree (strBytes ".ebox")) ∧
      ∃ nodes, walkTree (sampleFiles (strBytes ".ebox")) sampleRoot .fail = .ok nodes ∧
        shownEntries [] nodes = [] ∧
        findEntryIn (sampleFiles (strBytes ".ebox")) [sampleRoot] (entryName [""]) =
          some (pathOf sampleRoot [strBytes ".ebox"]) := by
  constructor
  · have hname : IsName (strBytes "X.EBOX") := by decide +kernel
    have h := sampleFiles_hasStore hname
    obtain ⟨nodes, entries, hnodes, hw⟩ := walks_sampleFiles hname
    have hlisted : Listed sampleRoot (sampleTree (strBytes "X.EBOX")) [strBytes "X.EBOX"] := by
      refine ⟨List.cons_ne_nil _ _, List.forall_mem_singleton.mpr hname, ?_, ?_, ?_, ?_⟩
      · decide +kernel
      · rw [sampleTree, if_neg (List.cons_ne_nil _ _), if_pos rfl]
      · decide +kernel
      · decide
    have hshown : shownParts [strBytes "X.EBOX"] = ["X"] := by decide +kernel
    refine ⟨h, nodes, hnodes, ?_, ?_⟩
    · rw [hw.stands.2, List.mem_map]
      exact ⟨_, hw.complete rfl _ (List.cons_ne_nil _ _) hlisted, by rw [hshown]; rfl⟩
    · have htyped : IsTyped [] "X" := List.forall_mem_singleton.mpr (by decide +kernel)
      have hfind := findEntryIn_entryName h htyped
      rw [if_neg (by decide +kernel)] at hfind
      exact hfind
  · have hname : IsName (strBytes ".ebox") := by decide +kernel
    have h := sampleFiles_hasStore hname
    obtain ⟨nodes, entries, hnodes, hw⟩ := walks_sampleFiles hname
    have hnone : entries = [] := by
      refine List.eq_nil_iff_forall_not_mem.mpr fun names hmem => ?_
      obtain ⟨hne, hlisted⟩ := hw.listed names hmem
      have hfile := hlisted.file
      rw [List.nil_append, sampleTree, if_neg hne] at hfile
      split at hfile
      · next heq =>
        have hebox := hlisted.isEbox
        rw [List.nil_append, heq] at hebox
        exact absurd hebox (by decide +kernel)
      · cases hfile
    refine ⟨h, nodes, hnodes, ?_, ?_⟩
    · rw [hw.stands.2, hnone]
      rfl
    · have htyped : IsTyped [] "" := List.forall_mem_singleton.mpr (by decide +kernel)
      have hfind := findEntryIn_entryName h htyped
      rw [if_pos (by decide +kernel)] at hfind
      exact hfind

end Piggy.Store
