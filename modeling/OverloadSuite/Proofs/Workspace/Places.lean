import OverloadSuite.Proofs.Outcome
import OverloadSuite.Workspace.Tree

/-!
# Places of a tree

A path leads to a place whatever stands there. Operations on a tree keep the directories that there
are and the files at all other places, so what can be read at other places is read again afterwards.
-/

namespace OverloadSuite

/-- The place that a piece of a path leads to from a place. -/
def Path.step (place : Location) (piece : String) : Location :=
  if isIdle piece then place else if piece = ".." then place.dropLast else place ++ [piece]

/-- The place that a path leads to, relative paths from a directory. -/
def Path.place (directory : Location) (path : String) : Location :=
  (pieces path).foldl step (if isAbsolute path then [] else directory)

/-- Idle pieces lead nowhere. -/
theorem Path.foldl_step_of_isIdle {idle : List String} (h : ∀ piece ∈ idle, isIdle piece = true)
    (place : Location) : idle.foldl step place = place := by
  induction idle with
  | nil => rfl
  | cons piece idle ih =>
    obtain ⟨hpiece, hidle⟩ := List.forall_mem_cons.mp h
    rw [List.foldl_cons, step, if_pos hpiece]
    exact ih hidle

namespace Tree

variable {t t' t'' : Tree} {place place' : Location} {pieces : List String} {path text : String}
  {name : String} {slash : Bool} {contents : ByteArray} {found : Target}

/-! ## Where paths lead -/

/-- A piece can be followed from a place. A name must be that of a directory. -/
def Enters (t : Tree) (place : Location) (piece : String) : Prop :=
  Path.isIdle piece = true ∨ piece = ".." ∨
    checkName piece = .ok () ∧ t.node? (place ++ [piece]) = some .directory

theorem walk_cons_eq_ok {piece : String} : t.walk place (piece :: pieces) = .ok place' ↔
    t.Enters place piece ∧ t.walk (Path.step place piece) pieces = .ok place' := by
  rw [walk, Path.step, Enters]
  by_cases hidle : Path.isIdle piece = true
  · simp [hidle]
  · by_cases hup : piece = ".."
    · rw [if_neg hidle, if_neg hidle, if_pos hup, if_pos hup]
      simp [hup]
    · rw [if_neg hidle, if_neg hidle, if_neg hup, if_neg hup]
      show (checkName piece >>= fun _ => _) = Except.ok place' ↔ _
      rw [Outcome.bind_eq_ok]
      constructor
      · rintro ⟨⟨⟩, hname, h⟩
        split at h
        · rename_i hnode
          exact ⟨.inr (.inr ⟨hname, hnode⟩), h⟩
        · cases h
        · cases h
      · rintro ⟨(hidle' | hup' | ⟨hname, hnode⟩), h⟩
        · exact absurd hidle' hidle
        · exact absurd hup' hup
        · exact ⟨(), hname, by simpa [hnode] using h⟩

theorem place_of_walk (h : t.walk place pieces = .ok place') :
    place' = pieces.foldl Path.step place := by
  induction pieces generalizing place with
  | nil => exact (Except.ok.inj h).symm
  | cons piece pieces ih => exact ih (walk_cons_eq_ok.mp h).2

/-- The target of a path by its last piece that is not empty. -/
theorem target_eq_entry (h : t.target path = .ok (.entry place name slash)) :
    ∃ outer idle, Path.pieces path = outer ++ name :: idle ∧
      (∀ piece ∈ idle, Path.isIdle piece = true) ∧ Path.isIdle name = false ∧ name ≠ ".." ∧
      t.walk (if Path.isAbsolute path then [] else t.workingDirectory) outer = .ok place := by
  have hsplit := List.takeWhile_append_dropWhile (p := String.isEmpty)
    (l := (Path.pieces path).reverse)
  unfold target at h
  split at h
  · cases h
  split at h
  · cases h
  split at h
  · cases h
  cases hkept : (Path.pieces path).reverse.dropWhile String.isEmpty with
  | nil => simp [hkept] at h
  | cons last outer =>
    simp only [hkept] at h
    split at h
    · obtain ⟨_, -, h⟩ := Outcome.bind_eq_ok.mp h
      cases h
    · rename_i hlast
      obtain ⟨place, hwalk, h⟩ := Outcome.bind_eq_ok.mp h
      obtain ⟨rfl, rfl, -⟩ := Target.entry.inj (Except.ok.inj h)
      rw [hkept] at hsplit
      have hpieces := congrArg List.reverse hsplit
      have hname := List.head?_dropWhile_not String.isEmpty (Path.pieces path).reverse
      simp only [hkept, List.head?_cons] at hname
      obtain ⟨hdot, hup⟩ := not_or.mp hlast
      have hempty := List.all_eq_true.mp
        (List.all_takeWhile (p := String.isEmpty) (l := (Path.pieces path).reverse))
      refine ⟨outer.reverse, ((Path.pieces path).reverse.takeWhile String.isEmpty).reverse,
        by simpa using hpieces.symm, fun piece hpiece => ?_, ?_, hup, hwalk⟩
      · simp [Path.isIdle, hempty piece (List.mem_reverse.mp hpiece)]
      · simp [Path.isIdle, hname, hdot]

/-- A text that the system takes for a path. -/
structure Admits (path : String) : Prop where
  nul : '\x00' ∉ path.toList
  ne_empty : path.isEmpty = false
  short : path.utf8ByteSize < pathLimit

/-- A relative path that ends with a name leads to an entry of the directory that the pieces in
front of the name lead to. -/
theorem target_eq_map {outer : List String} (hadmits : Admits path)
    (hrelative : Path.isAbsolute path = false) (hpieces : Path.pieces path = outer ++ [name])
    (hname : Path.isIdle name = false) (hup : name ≠ "..") :
    t.target path = (fun place => .entry place name false) <$> t.walk t.workingDirectory outer := by
  have hcontains : path.contains '\x00' = false := by
    simp [String.contains_char_eq, hadmits.nul]
  obtain ⟨hempty, hdot⟩ : name.isEmpty = false ∧ name ≠ "." := by
    simpa [Path.isIdle] using hname
  have hlong := hadmits.short
  unfold target
  rw [if_neg (by simp [hcontains]), if_neg (by simp [hadmits.ne_empty]), if_neg (by omega)]
  simp [hrelative, hpieces, hempty, hdot, hup]

/-- A tree in which every walk leads on as in another one has the targets of that one. -/
theorem target_of_walks (hdirectory : t'.workingDirectory = t.workingDirectory)
    (hwalk : ∀ place pieces place', t.walk place pieces = .ok place' →
      t'.walk place pieces = .ok place')
    (h : t.target path = .ok found) : t'.target path = .ok found := by
  unfold target at h ⊢
  split at h
  · cases h
  split at h
  · cases h
  split at h
  · cases h
  rename_i hnul hempty hlong
  rw [if_neg hnul, if_neg hempty, if_neg hlong, hdirectory]
  cases hkept : (Path.pieces path).reverse.dropWhile String.isEmpty with
  | nil => simpa [hkept] using h
  | cons last outer =>
    simp only [hkept] at h ⊢
    split at h
    · rename_i hlast
      obtain ⟨place, hplace, h⟩ := Outcome.bind_eq_ok.mp h
      rw [if_pos hlast]
      exact Outcome.bind_eq_ok.mpr ⟨place, hwalk _ _ _ hplace, h⟩
    · rename_i hlast
      obtain ⟨place, hplace, h⟩ := Outcome.bind_eq_ok.mp h
      rw [if_neg hlast]
      exact Outcome.bind_eq_ok.mpr ⟨place, hwalk _ _ _ hplace, h⟩

theorem place_of_target (h : t.target path = .ok (.entry place name slash)) :
    place ++ [name] = Path.place t.workingDirectory path := by
  obtain ⟨outer, idle, hpieces, hidle, hname, hup, hwalk⟩ := target_eq_entry h
  rw [Path.place, hpieces, List.foldl_append, List.foldl_cons, Path.foldl_step_of_isIdle hidle,
    ← place_of_walk hwalk, Path.step, if_neg (by simp [hname]), if_neg hup]

/-! ## What an operation keeps -/

/-- What operations on a tree keep: the directories that there are, and the files at all places but
some. -/
structure Keeps (places : List Location) (t t' : Tree) : Prop where
  workingDirectory : t'.workingDirectory = t.workingDirectory
  directory : ∀ place, t.node? place = some .directory → t'.node? place = some .directory
  file : ∀ place contents, place ∉ places → t.node? place = some (.file contents) →
    t'.node? place = some (.file contents)

namespace Keeps

variable {places places' : List Location}

theorem refl (t : Tree) : Keeps places t t :=
  ⟨rfl, fun _ h => h, fun _ _ _ h => h⟩

theorem trans (h : Keeps places t t') (h' : Keeps places' t' t'') :
    Keeps (places ++ places') t t'' where
  workingDirectory := h'.workingDirectory.trans h.workingDirectory
  directory place hplace := h'.directory place (h.directory place hplace)
  file place contents hplace hfile := by
    obtain ⟨hleft, hright⟩ := not_or.mp (mt List.mem_append.mpr hplace)
    exact h'.file place contents hright (h.file place contents hleft hfile)

theorem walk (h : Keeps places t t') (hwalk : t.walk place pieces = .ok place') :
    t'.walk place pieces = .ok place' := by
  induction pieces generalizing place with
  | nil => exact hwalk
  | cons piece pieces ih =>
    obtain ⟨henters, hwalk⟩ := walk_cons_eq_ok.mp hwalk
    refine walk_cons_eq_ok.mpr ⟨?_, ih hwalk⟩
    rcases henters with hidle | hup | ⟨hname, hnode⟩
    · exact .inl hidle
    · exact .inr (.inl hup)
    · exact .inr (.inr ⟨hname, h.directory _ hnode⟩)

theorem target (h : Keeps places t t') (htarget : t.target path = .ok found) :
    t'.target path = .ok found :=
  target_of_walks h.workingDirectory (fun _ _ _ => h.walk) htarget

end Keeps

/-- A node that takes the place of a file, or of nothing, leaves everything else. -/
theorem keeps_put {places : List Location} {node : Node}
    (hdirectory : t.node? (place ++ [name]) ≠ some .directory)
    (hfile : ∀ contents, t.node? (place ++ [name]) = some (.file contents) →
      place ++ [name] ∈ places) :
    Keeps places t (t.put (place ++ [name]) node) where
  workingDirectory := rfl
  directory other hother := by
    by_cases hroot : other = []
    · simp [hroot, node?]
    · have hne : place ++ [name] ≠ other := fun heq => hdirectory (heq ▸ hother)
      rw [node?_put _ _ _ _ hroot, if_neg hne]
      exact hother
  file other contents houtside hother := by
    by_cases hroot : other = []
    · simp [hroot, node?] at hother
    · have hne : place ++ [name] ≠ other :=
        fun heq => houtside (heq ▸ hfile contents (heq ▸ hother))
      rw [node?_put _ _ _ _ hroot, if_neg hne]
      exact hother

/-! ## Operations -/

theorem read_eq_ok : t.read path = .ok contents ↔ ∃ place name,
    t.target path = .ok (.entry place name false) ∧ checkName name = .ok () ∧
      t.node? (place ++ [name]) = some (.file contents) := by
  rw [read, Outcome.bind_eq_ok]
  constructor
  · intro h
    obtain ⟨found, htarget, h⟩ := h
    cases found with
    | directory place => cases h
    | entry place name slash =>
      obtain ⟨⟨⟩, hname, h⟩ := Outcome.bind_eq_ok.mp h
      split at h
      · rename_i hnode
        split at h
        · cases h
        · rename_i hslash
          obtain rfl := Except.ok.inj h
          obtain rfl := Bool.eq_false_iff.mpr hslash
          exact ⟨place, name, htarget, hname, hnode⟩
      · cases h
      · cases h
  · intro h
    obtain ⟨place, name, htarget, hname, hnode⟩ := h
    refine ⟨_, htarget, Outcome.bind_eq_ok.mpr ⟨(), hname, ?_⟩⟩
    simp [hnode]

theorem write_eq_ok : t.write path text = .ok t' ↔ ∃ place name,
    t.target path = .ok (.entry place name false) ∧ checkName name = .ok () ∧
      t.node? (place ++ [name]) ≠ some .directory ∧
      t' = t.put (place ++ [name]) (.file text.toUTF8) := by
  rw [write, Outcome.bind_eq_ok]
  constructor
  · intro h
    obtain ⟨found, htarget, h⟩ := h
    split at h
    · cases h
    · cases h
    · rename_i place name
      obtain ⟨⟨⟩, hname, h⟩ := Outcome.bind_eq_ok.mp h
      split at h
      · cases h
      · rename_i hnode
        exact ⟨place, name, htarget, hname, hnode, (Except.ok.inj h).symm⟩
  · intro h
    obtain ⟨place, name, htarget, hname, hnode, rfl⟩ := h
    refine ⟨_, htarget, Outcome.bind_eq_ok.mpr ⟨(), hname, ?_⟩⟩
    split
    · rename_i hdirectory
      exact absurd hdirectory hnode
    · rfl

theorem makeDirectory_eq_ok (h : t.makeDirectory path = .ok t') : ∃ place name,
    place ++ [name] = Path.place t.workingDirectory path ∧ t.node? (place ++ [name]) = none ∧
      t' = t.put (place ++ [name]) .directory := by
  obtain ⟨found, htarget, h⟩ := Outcome.bind_eq_ok.mp h
  cases found with
  | directory place => cases h
  | entry place name slash =>
    obtain ⟨⟨⟩, -, h⟩ := Outcome.bind_eq_ok.mp h
    split at h
    · cases h
    · rename_i hnode
      exact ⟨place, name, place_of_target htarget, hnode, (Except.ok.inj h).symm⟩

/-- A directory that is there cannot be made, but not because it is not found. -/
theorem exists_makeDirectory_eq_error (h : t.isDirectory path = true) :
    ∃ e, t.makeDirectory path = .error e ∧ e ≠ .notFound := by
  unfold isDirectory at h
  cases htarget : t.target path with
  | error e => simp [htarget] at h
  | ok found =>
    simp only [htarget] at h
    unfold makeDirectory
    rw [htarget]
    cases found with
    | directory place => exact ⟨.exists, rfl, nofun⟩
    | entry place name slash =>
      have hnode : t.node? (place ++ [name]) = some .directory := by
        split at h
        · assumption
        · cases h
      show ∃ e, (checkName name >>= fun _ => _) = Except.error e ∧ e ≠ .notFound
      unfold checkName
      split
      · exact ⟨.nameTooLong, rfl, nofun⟩
      · exact ⟨.exists, by rw [hnode]; rfl, nofun⟩

/-- A file that is read stands at the place of its path. -/
theorem node?_of_read (h : t.read path = .ok contents) :
    t.node? (Path.place t.workingDirectory path) = some (.file contents) := by
  obtain ⟨place, name, htarget, -, hnode⟩ := read_eq_ok.mp h
  rw [← place_of_target htarget, hnode]

theorem Keeps.read {places : List Location} (h : Keeps places t t')
    (houtside : Path.place t.workingDirectory path ∉ places) (hread : t.read path = .ok contents) :
    t'.read path = .ok contents := by
  obtain ⟨place, name, htarget, hname, hnode⟩ := read_eq_ok.mp hread
  rw [← place_of_target htarget] at houtside
  exact read_eq_ok.mpr ⟨place, name, h.target htarget, hname, h.file _ _ houtside hnode⟩

theorem keeps_write (h : t.write path text = .ok t') :
    Keeps [Path.place t.workingDirectory path] t t' := by
  obtain ⟨place, name, htarget, -, hnode, rfl⟩ := write_eq_ok.mp h
  rw [← place_of_target htarget]
  exact keeps_put hnode fun _ _ => by simp

/-- What was written is read again. -/
theorem read_of_write (h : t.write path text = .ok t') : t'.read path = .ok text.toUTF8 := by
  have hkeeps := keeps_write h
  obtain ⟨place, name, htarget, hname, -, rfl⟩ := write_eq_ok.mp h
  refine read_eq_ok.mpr ⟨place, name, hkeeps.target htarget, hname, ?_⟩
  rw [node?_put _ _ _ _ (by simp), if_pos rfl]

theorem keeps_makeDirectory (h : t.makeDirectory path = .ok t') : Keeps [] t t' := by
  obtain ⟨place, name, -, hnode, rfl⟩ := makeDirectory_eq_ok h
  refine keeps_put ?_ fun contents hfile => ?_
  · simp [hnode]
  · simp [hnode] at hfile

/-! ## A change at one place -/

/-- Another tree that differs from a tree at a single place, where something else stands or
nothing. -/
structure DiffersAt (place : Location) (t t' : Tree) : Prop where
  workingDirectory : t'.workingDirectory = t.workingDirectory
  elsewhere : ∀ other, other ≠ place → t'.node? other = t.node? other
  here : t'.node? place ≠ t.node? place

/-- The tree without the node at a location. -/
def remove (t : Tree) (location : Location) : Tree := { t with nodes := t.nodes.erase location }

theorem node?_remove (t : Tree) (location place : Location) (h : place ≠ []) :
    (t.remove location).node? place = if location = place then none else t.node? place := by
  simp [node?, remove, Std.ExtTreeMap.getElem?_erase, h]

theorem differsAt_put {node : Node} (hroot : place ≠ []) (hnode : t.node? place ≠ some node) :
    DiffersAt place t (t.put place node) where
  workingDirectory := rfl
  elsewhere other hother := by
    by_cases hother' : other = []
    · simp [node?, hother']
    · rw [node?_put _ _ _ _ hother', if_neg hother.symm]
  here := by
    rw [node?_put _ _ _ _ hroot, if_pos rfl]
    exact hnode.symm

theorem differsAt_remove (hroot : place ≠ []) (hnode : t.node? place ≠ none) :
    DiffersAt place t (t.remove place) where
  workingDirectory := rfl
  elsewhere other hother := by
    by_cases hother' : other = []
    · simp [node?, hother']
    · rw [node?_remove _ _ _ hother', if_neg hother.symm]
  here := by
    rw [node?_remove _ _ _ hroot, if_pos rfl]
    exact hnode.symm

/-- A file that stands at the place cannot be read any more as it was. -/
theorem DiffersAt.read_ne (h : DiffersAt (Path.place t.workingDirectory path) t t')
    (hread : t.read path = .ok contents) : t'.read path ≠ .ok contents := by
  intro hread'
  refine h.here ?_
  rw [node?_of_read hread, ← h.workingDirectory, node?_of_read hread']

theorem DiffersAt.keeps (h : DiffersAt place t t') (hnode : t.node? place ≠ some .directory) :
    Keeps [place] t t' where
  workingDirectory := h.workingDirectory
  directory other hother := by
    rw [h.elsewhere other fun heq => hnode (heq ▸ hother)]
    exact hother
  file other contents houtside hother := by
    rw [h.elsewhere other (by simpa using houtside)]
    exact hother

end Tree

end OverloadSuite
