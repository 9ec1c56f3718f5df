import Mathlib.Data.List.Infix
import GameBoyAssembler.File.Tree
import GameBoyAssembler.Proofs.Addresses

/-!
# Reading behind a write

A path is followed piece by piece, from the root or from the working folder, and only into folders
that exist.  So a write, which goes to a place that a path leads to, makes no folder: every path leads
where it led before, and every other file is as it was.

Main definitions:

* `FileTree.IsReached` — every folder on the way to a place exists;
* `FileTree.SameFile` — two paths that lead to one file.

Main results:

* `FileTree.isReached_walk` — a path leads only to places that are reached;
* `FileTree.withExtension_eq_of_sameFile` — **another extension leads to another file**;
* `FileTree.put_of_write`, `FileTree.read_write` — what a write does, and **what is read behind it**.
-/

set_option relaxedAutoImplicit false
set_option autoImplicit false

namespace GameBoyAssembler

/-! ### The pieces of a path -/

theorem pathPieces_slash (cs : List Char) : pathPieces ('/' :: cs) = [] :: pathPieces cs := rfl

theorem pathPieces_ne_nil (cs : List Char) : pathPieces cs ≠ [] := by
  fun_cases pathPieces cs <;> simp

/-- A character other than a slash goes to the first piece. -/
theorem pathPieces_cons {c : Char} (hc : c ≠ '/') {cs p : List Char} {ps : List (List Char)}
    (h : pathPieces cs = p :: ps) : pathPieces (c :: cs) = (c :: p) :: ps := by
  rw [pathPieces.eq_3 c cs hc, h]

/-- A name without a slash is one piece. -/
theorem pathPieces_of_name {cs : List Char} (h : '/' ∉ cs) : pathPieces cs = [cs] := by
  induction cs with
  | nil => rfl
  | cons c cs ih =>
    have hc : c ≠ '/' := fun hc => h (hc ▸ List.mem_cons_self)
    exact pathPieces_cons hc (ih fun hcs => h (List.mem_cons_of_mem c hcs))

/-- A slash separates the pieces in front of it from those behind. -/
theorem pathPieces_append_slash (cs ds : List Char) :
    pathPieces (cs ++ '/' :: ds) = pathPieces cs ++ pathPieces ds := by
  induction cs with
  | nil => rfl
  | cons c cs ih =>
    by_cases hc : c = '/'
    · subst hc
      rw [List.cons_append, pathPieces_slash, pathPieces_slash, ih, List.cons_append]
    · obtain ⟨p, ps, hps⟩ := List.exists_cons_of_ne_nil (pathPieces_ne_nil cs)
      rw [hps, List.cons_append] at ih
      rw [List.cons_append, pathPieces_cons hc ih, pathPieces_cons hc hps, List.cons_append]

/-- The part of a path in front of its last name: nothing, or a text that ends in a slash. -/
def IsFolderPart (folder : List Char) : Prop :=
  folder = [] ∨ ∃ front, folder = front ++ ['/']

/-- A folder part contributes the same pieces in front of every name. -/
theorem IsFolderPart.exists_pieces {folder : List Char} (h : IsFolderPart folder) :
    ∃ front, ∀ name, '/' ∉ name → pathPieces (folder ++ name) = front ++ [name] := by
  rcases h with rfl | ⟨front, rfl⟩
  · exact ⟨[], fun name hname => pathPieces_of_name hname⟩
  · refine ⟨pathPieces front, fun name hname => ?_⟩
    rw [List.append_assoc, List.singleton_append, pathPieces_append_slash,
      pathPieces_of_name hname]

/-- A path is a folder part and the name behind its last slash. -/
theorem exists_name (cs : List Char) :
    ∃ folder name, (cs.reverse.takeWhile (· != '/')).reverse = name
      ∧ cs.take (cs.length - name.length) = folder ∧ cs = folder ++ name ∧ '/' ∉ name
      ∧ IsFolderPart folder := by
  have hcs : cs = (cs.reverse.dropWhile (· != '/')).reverse
      ++ (cs.reverse.takeWhile (· != '/')).reverse := by
    rw [← List.reverse_append, List.takeWhile_append_dropWhile, List.reverse_reverse]
  refine ⟨(cs.reverse.dropWhile (· != '/')).reverse, (cs.reverse.takeWhile (· != '/')).reverse,
    rfl, ?_, hcs, ?_, ?_⟩
  · conv_lhs => rw [hcs]
    simp
  · intro hmem
    have h := List.all_eq_true.1 (List.all_takeWhile (p := (· != '/'))) '/' (List.mem_reverse.1 hmem)
    exact absurd h (by decide)
  · cases hrest : cs.reverse.dropWhile (· != '/') with
    | nil => exact .inl rfl
    | cons c front =>
      have hc : c = '/' := by
        have h := List.head?_dropWhile_not (· != '/') cs.reverse
        rw [hrest] at h
        simpa using h
      exact .inr ⟨front.reverse, by rw [hc, List.reverse_cons]⟩

theorem stem_subset {name : List Char} : stem name ⊆ name := by
  intro c hc
  unfold stem at hc
  split at hc
  next d before hbefore =>
    split at hc
    · exact hc
    · have hsub := (List.dropWhile_sublist (· != '.') (l := name.reverse)).subset
      rw [hbefore] at hsub
      exact List.mem_reverse.1 (hsub (List.mem_cons_of_mem d (List.mem_reverse.1 hc)))
  next => exact hc

theorem no_slash_upToDot {name : List Char} (h : '/' ∉ name) : '/' ∉ upToDot name := by
  unfold upToDot
  split
  · exact h
  · intro hmem
    rcases List.mem_append.1 hmem with hmem | hmem
    · exact h (stem_subset hmem)
    · exact absurd hmem (by decide)

/-- With an extension that holds no slash a path keeps its folder part, and has one name behind it. -/
theorem exists_withExtension (path : String) {extension : String} (hext : '/' ∉ extension.toList) :
    ∃ folder name name', path.toList = folder ++ name
      ∧ (withExtension path extension).toList = folder ++ name' ∧ IsFolderPart folder ∧ '/' ∉ name
      ∧ '/' ∉ name' := by
  obtain ⟨folder, name, hname, hfolder, hpath, hslash, hpart⟩ := exists_name path.toList
  rw [String.length_toList] at hfolder
  unfold withExtension
  simp only [hname, hfolder]
  split
  · refine ⟨folder, name, stem name ++ if extension.isEmpty then [] else '.' :: extension.toList,
      hpath, ?_, hpart, hslash, ?_⟩
    · rw [String.toList_ofList, List.append_assoc]
    · intro hmem
      rcases List.mem_append.1 hmem with hmem | hmem
      · exact hslash (stem_subset hmem)
      · split at hmem
        · exact absurd hmem List.not_mem_nil
        · rcases List.mem_cons.1 hmem with hdot | hmem
          · exact absurd hdot (by decide)
          · exact hext hmem
  · refine ⟨folder, name, upToDot name, hpath, ?_, hpart, hslash, no_slash_upToDot hslash⟩
    rw [String.toList_ofList]

namespace FileTree

variable {t : FileTree}

/-! ### Folders -/

theorem isFolder_iff {place : Place} :
    t.isFolder place = true ↔ place = [] ∨ (∃ f ∈ t.folders, place <+: f)
      ∨ ∃ f ∈ t.files, place <+: f.1 ∧ place ≠ f.1 := by
  simp [isFolder, or_assoc]

/-- What is on the way to a folder is a folder. -/
theorem isFolder_of_isPrefixOf {p place : Place} (h : t.isFolder place = true) (hp : p <+: place) :
    t.isFolder p = true := by
  rw [isFolder_iff] at h ⊢
  rcases h with rfl | ⟨f, hf, hpre⟩ | ⟨f, hf, hpre, hne⟩
  · exact .inl (List.prefix_nil.1 hp)
  · exact .inr (.inl ⟨f, hf, hp.trans hpre⟩)
  · refine .inr (.inr ⟨f, hf, hp.trans hpre, ?_⟩)
    rintro rfl
    exact hne (hpre.eq_of_length_le hp.length_le)

/-- Every folder on the way to the place exists. -/
def IsReached (t : FileTree) (place : Place) : Prop :=
  ∀ p, p <+: place → p ≠ place → t.isFolder p = true

theorem IsReached.dropLast {place : Place} (h : t.IsReached place) : t.IsReached place.dropLast := by
  intro p hp hne
  refine h p (hp.trans (List.dropLast_prefix place)) ?_
  rintro rfl
  exact hne (hp.eq_of_length_le (List.dropLast_prefix p).length_le)

theorem isReached_concat {place : Place} (h : t.isFolder place = true) (name : String) :
    t.IsReached (place ++ [name]) := by
  intro p hp hne
  rcases List.prefix_concat_iff.1 hp with hp | hp
  · exact absurd hp hne
  · exact isFolder_of_isPrefixOf h hp

/-- A folder is reached. -/
theorem isReached_of_isFolder {place : Place} (h : t.isFolder place = true) : t.IsReached place :=
  fun _ hp _ => isFolder_of_isPrefixOf h hp

/-! ### Following a path -/

/-- **One step of a path** from a place: it must be a folder, and the step stays, goes back or goes
on. -/
theorem walk_step {place r : Place} {name : String} {rest : List String}
    (h : t.walk place (name :: rest) = .ok r) :
    t.isFolder place = true ∧
      (t.walk place rest = .ok r ∨ t.walk place.dropLast rest = .ok r
        ∨ t.walk (place ++ [name]) rest = .ok r) := by
  rw [walk] at h
  split at h
  next hfolder =>
    refine ⟨hfolder, ?_⟩
    split at h
    · exact .inl h
    · split at h
      · exact .inr (.inl h)
      · exact .inr (.inr h)
  next =>
    split at h <;> cases h

/-- A path leads only to places that are reached. -/
theorem isReached_walk {pieces : List String} {place r : Place} (hplace : t.IsReached place)
    (h : t.walk place pieces = .ok r) : t.IsReached r := by
  induction pieces generalizing place with
  | nil =>
    cases h
    exact hplace
  | cons name rest ih =>
    obtain ⟨hfolder, h | h | h⟩ := walk_step h
    · exact ih hplace h
    · exact ih hplace.dropLast h
    · exact ih (isReached_concat hfolder name) h

theorem walk_append (start : Place) (xs ys : List String) :
    t.walk start (xs ++ ys) = (t.walk start xs).bind fun place => t.walk place ys := by
  induction xs generalizing start with
  | nil => rfl
  | cons name xs ih =>
    rw [List.cons_append, walk, walk, ih, ih, ih]
    split_ifs <;> rfl

/-- The last piece of a path: the place is the folder with the piece as a name behind it, or it is a
folder itself. -/
theorem walk_concat {start place : Place} {front : List String} {name : String}
    (h : t.walk start (front ++ [name]) = .ok place) :
    ∃ folder, t.walk start front = .ok folder
      ∧ (place = folder ++ [name] ∨ t.isFolder place = true) := by
  rw [walk_append] at h
  obtain ⟨folder, hfront, h⟩ := bind_eq_ok_iff.1 h
  refine ⟨folder, hfront, ?_⟩
  obtain ⟨hfolder, h | h | h⟩ := walk_step h
  · cases h
    exact .inr hfolder
  · cases h
    exact .inr (isFolder_of_isPrefixOf hfolder (List.dropLast_prefix folder))
  · cases h
    exact .inl rfl

/-- Paths that differ in their last name only start at the same place. -/
theorem start_eq_of_folder {path path' : String} {folder name name' : List Char}
    (hpath : path.toList = folder ++ name) (hpath' : path'.toList = folder ++ name')
    (hname : '/' ∉ name) (hname' : '/' ∉ name') : t.start path = t.start path' := by
  unfold start
  rw [hpath, hpath']
  cases folder with
  | nil =>
    have hhead : name.head? ≠ some '/' := fun h => hname (List.mem_of_head? h)
    have hhead' : name'.head? ≠ some '/' := fun h => hname' (List.mem_of_head? h)
    rw [List.nil_append, List.nil_append, if_neg hhead, if_neg hhead']
  | cons c folder => rfl

/-- A path that leads somewhere is not empty, and is followed from where it starts. -/
theorem walk_of_locate {path : String} {place : Place} (h : t.locate path = .ok place) :
    path.isEmpty = false
      ∧ t.walk (t.start path) ((pathPieces path.toList).map String.ofList) = .ok place := by
  unfold locate at h
  split at h
  · cases h
  next hempty => exact ⟨eq_false_of_ne_true hempty, h⟩

theorem isReached_of_locate {path : String} {place : Place} (h : t.locate path = .ok place) :
    t.IsReached place := by
  obtain ⟨-, hwalk⟩ := walk_of_locate h
  obtain ⟨piece, pieces, hpieces⟩ := List.exists_cons_of_ne_nil (pathPieces_ne_nil path.toList)
  rw [hpieces, List.map_cons] at hwalk
  exact isReached_walk (isReached_of_isFolder (walk_step hwalk).1) hwalk

/-- The two paths lead to one place, which is no folder. -/
def SameFile (t : FileTree) (p q : String) : Prop :=
  ∃ place, t.locate p = .ok place ∧ t.locate q = .ok place ∧ t.isFolder place = false

/-- **Another extension leads to another file**, unless it gives the path itself: the two paths have
one folder, and in it two names. -/
theorem withExtension_eq_of_sameFile {path extension : String} (hext : '/' ∉ extension.toList)
    (h : t.SameFile (withExtension path extension) path) :
    withExtension path extension = path := by
  obtain ⟨place, hnew, hpath, hplace⟩ := h
  obtain ⟨folder, name, name', hold, hwith, hpart, hname, hname'⟩ := exists_withExtension path hext
  obtain ⟨front, hfront⟩ := hpart.exists_pieces
  obtain ⟨-, hwalk⟩ := walk_of_locate hpath
  obtain ⟨-, hwalk'⟩ := walk_of_locate hnew
  rw [hold, hfront name hname, List.map_append, List.map_singleton] at hwalk
  rw [hwith, hfront name' hname', List.map_append, List.map_singleton,
    start_eq_of_folder hwith hold hname' hname] at hwalk'
  obtain ⟨q, hq, hlast⟩ := walk_concat hwalk
  obtain ⟨q', hq', hlast'⟩ := walk_concat hwalk'
  have hqq : q = q' := Except.ok.inj (hq.symm.trans hq')
  -- the place is no folder, so it is the name in both cases
  rw [hplace] at hlast hlast'
  have hends : q ++ [String.ofList name] = q' ++ [String.ofList name'] :=
    (hlast.resolve_right Bool.false_ne_true).symm.trans (hlast'.resolve_right Bool.false_ne_true)
  rw [hqq] at hends
  have hnames : name = name' :=
    String.ofList_injective (List.singleton_inj.1 (List.append_cancel_left hends))
  apply String.toList_injective
  rw [hwith, hold, hnames]

/-! ### Writing one file -/

theorem file?_put_self (place : Place) (content : List UInt8) :
    (t.put place content).file? place = some content := by
  simp [file?, put]

theorem lookup_filter_ne {place q : Place} (hne : q ≠ place) (files : List (Place × List UInt8)) :
    (files.filter fun f => f.1 != place).lookup q = files.lookup q := by
  induction files with
  | nil => rfl
  | cons f files ih =>
    obtain ⟨p, content⟩ := f
    by_cases hp : p = place
    · have hq : (q == place) = false := by simpa using hne
      simp [hp, List.lookup_cons, ih, hq]
    · simp [hp, List.lookup_cons, ih]

theorem file?_put_of_ne {place q : Place} (hne : q ≠ place) (content : List UInt8) :
    (t.put place content).file? q = t.file? q := by
  have hq : (q == place) = false := by simpa using hne
  simp only [file?, put, List.lookup_cons, hq]
  exact lookup_filter_ne hne t.files

/-- A file at a reached place makes no folder. -/
theorem isFolder_put {place : Place} (hplace : t.IsReached place) (content : List UInt8)
    (p : Place) : (t.put place content).isFolder p = t.isFolder p := by
  rw [Bool.eq_iff_iff]
  constructor
  · intro h
    rcases isFolder_iff.1 h with hp | hp | ⟨f, hf, hpre, hne⟩
    · exact isFolder_iff.2 (.inl hp)
    · exact isFolder_iff.2 (.inr (.inl hp))
    · rcases List.mem_cons.1 hf with rfl | hf
      · exact hplace p hpre hne
      · exact isFolder_iff.2 (.inr (.inr ⟨f, (List.mem_filter.1 hf).1, hpre, hne⟩))
  · intro h
    rcases isFolder_iff.1 h with hp | hp | ⟨f, hf, hpre, hne⟩
    · exact isFolder_iff.2 (.inl hp)
    · exact isFolder_iff.2 (.inr (.inl hp))
    · by_cases hfp : f.1 = place
      · exact isFolder_iff.2 (.inr (.inr
          ⟨(place, content), List.mem_cons_self, hfp ▸ hpre, hfp ▸ hne⟩))
      · have hmem : f ∈ (t.put place content).files :=
          List.mem_cons_of_mem _ (List.mem_filter.2 ⟨hf, by simpa using hfp⟩)
        exact isFolder_iff.2 (.inr (.inr ⟨f, hmem, hpre, hne⟩))

/-- A path that leads somewhere leads there in every tree with the same folders. -/
theorem walk_congr {t' : FileTree} (hfolder : ∀ p, t'.isFolder p = t.isFolder p)
    {pieces : List String} {place r : Place} (h : t.walk place pieces = .ok r) :
    t'.walk place pieces = .ok r := by
  induction pieces generalizing place with
  | nil => exact h
  | cons name rest ih =>
    have hplace := (walk_step h).1
    rw [walk, if_pos hplace] at h
    rw [walk, hfolder, if_pos hplace]
    split_ifs at h ⊢ <;> exact ih h

theorem locate_put {place : Place} (hplace : t.IsReached place) (content : List UInt8)
    {path : String} {r : Place} (h : t.locate path = .ok r) :
    (t.put place content).locate path = .ok r := by
  obtain ⟨hempty, hwalk⟩ := walk_of_locate h
  unfold locate
  rw [hempty]
  exact walk_congr (isFolder_put hplace content) hwalk

theorem read_eq_ok_iff {path : String} {content : List UInt8} :
    t.read path = .ok content
      ↔ ∃ place, t.locate path = .ok place ∧ t.file? place = some content := by
  unfold read
  rw [bind_eq_ok_iff]
  constructor
  · rintro ⟨place, hloc, h⟩
    refine ⟨place, hloc, ?_⟩
    cases hfile : t.file? place with
    | none =>
      rw [hfile] at h
      cases h
    | some bytes =>
      rw [hfile] at h
      cases h
      rfl
  · rintro ⟨place, hloc, hfile⟩
    refine ⟨place, hloc, ?_⟩
    rw [hfile]
    rfl

/-- A path may start at the root, or lead up through it. -/
example :
    (ofFiles ["work"] [("a.asm", [0x00])] []).read "/work/./a.asm" = .ok [0x00]
      ∧ (ofFiles ["work"] [("a.asm", [0x00])] []).read "../../work/a.asm" = .ok [0x00] := by
  decide +kernel

theorem withoutEndSlashes_eq {path : String} (h : path.toList.getLast? ≠ some '/') :
    withoutEndSlashes path = path := by
  unfold withoutEndSlashes
  cases hpath : path.toList.reverse with
  | nil =>
    have hnil : path.toList = [] := List.reverse_eq_nil_iff.1 hpath
    have hempty : path = "" := String.toList_injective hnil
    subst hempty
    rfl
  | cons c cs =>
    have hc : (c == '/') = false := by
      rw [List.getLast?_eq_head?_reverse, hpath] at h
      simpa using h
    rw [List.dropWhile_cons_of_neg (by simp [hc])]
    dsimp only
    rw [← hpath, List.reverse_reverse, String.ofList_toList]

/-- **What a write does**: it puts the content at the place that the path leads to, which is no
folder. -/
theorem put_of_write {path : String} {content : List UInt8} {t' : FileTree}
    (h : t.write path content = .ok t') :
    ∃ place, t.locate path = .ok place ∧ t.isFolder place = false
      ∧ t' = t.put place content := by
  unfold write at h
  obtain ⟨place, hloc, h⟩ := bind_eq_ok_iff.1 h
  refine ⟨place, ?_⟩
  split at h
  · cases h
  next hgood =>
    rw [Bool.or_eq_true, beq_iff_eq, not_or] at hgood
    rw [withoutEndSlashes_eq hgood.2] at hloc
    cases h
    exact ⟨hloc, eq_false_of_ne_true hgood.1, rfl⟩

/-- **Reading behind a write**: a path that could be read reads the same content, or what was
written, and then the two paths lead to one file. -/
theorem read_write {path input : String} {content bytes : List UInt8} {t' : FileTree}
    (hwrite : t.write path content = .ok t') (hread : t.read input = .ok bytes) :
    t'.read input = .ok bytes ∨ (t'.read input = .ok content ∧ t.SameFile path input) := by
  obtain ⟨place, hpath, hplace, rfl⟩ := put_of_write hwrite
  obtain ⟨q, hinput, hfile⟩ := read_eq_ok_iff.1 hread
  have hstays := locate_put (isReached_of_locate hpath) content hinput
  by_cases hq : q = place
  · subst hq
    exact .inr ⟨read_eq_ok_iff.2 ⟨q, hstays, file?_put_self q content⟩, q, hpath, hinput, hplace⟩
  · exact .inl (read_eq_ok_iff.2 ⟨q, hstays, by rw [file?_put_of_ne hq, hfile]⟩)

end FileTree

end GameBoyAssembler
