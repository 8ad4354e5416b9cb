import FlatSchema.Proofs.Files.Travel

/-!
How a file tree changes. Directories and new files are added where there was nothing, and files that
are there are filled anew; everything else stays. So a path that led to a file still leads to that
file, and a file holds what it held, unless it is one that was filled.

        before             a/x.fbs: file 0
        made               out: directory       out/x.fields.json: file 1
        filled             file 1
-/

namespace FlatSchema

/-- One path is on the way to another one. -/
inductive Path.Above (d : Path) : Path → Prop where
  | parent {p : Path} : p.parent? = some d → Above d p
  | step {p q : Path} : p.parent? = some q → Above d q → Above d p

namespace FileTree

variable {t t' : FileTree}

/-! ### Locations -/

/-- The root is always a directory. -/
theorem ne_nil_of_at? {l : Location} (h : t.at? l ≠ some .directory) : l ≠ [] := by
  rintro rfl
  exact h rfl

theorem lookup_filter_ne {l m : Location} (h : m ≠ l) (entries : List (Location × Entry)) :
    (entries.filter (·.1 != l)).lookup m = entries.lookup m := by
  induction entries with
  | nil => rfl
  | cons x rest ih =>
    obtain ⟨k, e⟩ := x
    by_cases hk : k = l
    · subst hk
      rw [List.filter_cons_of_neg (by simp), ih, List.lookup_cons, beq_eq_false_iff_ne.mpr h]
    · rw [List.filter_cons_of_pos (by simp [hk]), List.lookup_cons, List.lookup_cons, ih]

theorem at?_put {l : Location} (hl : l ≠ []) (e : Entry) (m : Location) :
    (t.put l e).at? m = if m = l then some e else t.at? m := by
  split
  · next hm =>
    subst hm
    simp [at?, put, hl]
  · next hm =>
    rw [at?, at?, put, List.lookup_cons, beq_eq_false_iff_ne.mpr hm, lookup_filter_ne hm]

/-- What is put where something was missing is all that is new. -/
theorem put_missing {l : Location} (hnone : t.at? l = none) (e : Entry) :
    Kept t (t.put l e) ∧ (t.put l e).at? l = some e ∧ ∀ m e', (t.put l e).at? m = some e' →
      t.at? m = some e' ∨ m = l ∧ e' = e := by
  have hroot : t.at? l ≠ some .directory := by simp [hnone]
  have hput := at?_put (t := t) (ne_nil_of_at? hroot) e
  refine ⟨⟨rfl, fun m e' hm => ?_⟩, by rw [hput, if_pos rfl], ?_⟩
  · rw [hput, if_neg, hm]
    rintro rfl
    cases hnone.symm.trans hm
  · intro m e' hm
    rw [hput] at hm
    split at hm
    · next hml => exact .inr ⟨hml, (Option.some.inj hm).symm⟩
    · exact .inl hm

/-- No location has a file of the number that is fresh. -/
theorem ne_fresh {l : Location} {n : Nat} (h : t.at? l = some (.file n)) : n ≠ t.fresh := by
  have hentry : t.entries.lookup l = some (.file n) := by
    rw [at?] at h
    split at h
    · cases h
    · exact h
  have hlt : n < t.fresh := by
    rw [fresh]
    generalize t.entries = entries at hentry
    induction entries with
    | nil => cases hentry
    | cons x rest ih =>
      obtain ⟨m, e⟩ := x
      rw [List.foldr_cons]
      rw [List.lookup_cons] at hentry
      split at hentry
      · cases hentry
        exact Nat.lt_of_lt_of_le (Nat.lt_succ_self n) (Nat.le_max_left _ _)
      · have hrest := ih hentry
        cases e with
        | file k => exact Nat.lt_of_lt_of_le hrest (Nat.le_max_right _ _)
        | directory => exact hrest
        | link target => exact hrest
  exact Nat.ne_of_lt hlt

/-- The tree of some texts, in the directories that they need. -/
def ofTexts (texts : List (List String × String)) : FileTree :=
  texts.foldl (fun t (names, text) =>
    (t.putDirectories (names.dropLast.map bytesOf)).putFile (names.map bytesOf) (.text text)) {}

theorem contents_fill (n : Nat) (c : Content) (m : Nat) :
    (t.fill n c).contents m = if m = n then c else t.contents m := rfl

/-! ### Directories -/

/-- From one tree to the next directories are made where nothing was, where some of the paths `dirs`
    lead. -/
structure Grown (dirs : Path → Prop) (t t' : FileTree) : Prop extends Kept t t' where
  contents : t'.contents = t.contents
  made : ∀ l e, t'.at? l = some e → t.at? l = some e ∨
    e = .directory ∧ ∃ d, dirs d ∧ t'.locate true d = .ok (.found l .directory)

namespace Grown

variable {t'' : FileTree} {dirs dirs' : Path → Prop}

theorem refl (dirs : Path → Prop) (t : FileTree) : Grown dirs t t :=
  ⟨.refl t, rfl, fun _ _ => .inl⟩

theorem mono (h : Grown dirs t t') (hsub : ∀ d, dirs d → dirs' d) : Grown dirs' t t' where
  toKept := h.toKept
  contents := h.contents
  made l e hl := by
    rcases h.made l e hl with hold | ⟨he, d, hd, hlocate⟩
    · exact .inl hold
    · exact .inr ⟨he, d, hsub d hd, hlocate⟩

theorem trans (h : Grown dirs t t') (h' : Grown dirs t' t'') : Grown dirs t t'' where
  toKept := h.toKept.trans h'.toKept
  contents := h'.contents.trans h.contents
  made l e hl := by
    rcases h'.made l e hl with hl' | hnew
    · rcases h.made l e hl' with hold | ⟨he, d, hd, hlocate⟩
      · exact .inl hold
      · exact .inr ⟨he, d, hd, locate_kept h'.toKept hlocate⟩
    · exact .inr hnew

/-- No link and no second name of a file comes with directories. -/
theorem unlinked (h : Grown dirs t t') (hlinks : Unlinked t) : Unlinked t' := by
  have hold {l : Location} {e : Entry} (hl : t'.at? l = some e) (he : e ≠ .directory) :
      t.at? l = some e := (h.made l e hl).resolve_right fun hnew => he hnew.1
  refine ⟨fun l target hl => ?_, fun l m n hl hm => ?_⟩
  · exact hlinks.no_link l target (hold hl (by simp))
  · exact hlinks.one_name l m n (hold hl (by simp)) (hold hm (by simp))

end Grown

theorem grown_createDirectory {p : Path} (h : t.createDirectory p = .ok t') :
    Grown (· = p) t t' := by
  unfold createDirectory at h
  split at h <;> cases h
  next l hlocate =>
    have hnone : t.at? l = none := at?_of_locate hlocate (by simp [Place.entry?])
    obtain ⟨hkept, hput, hmade⟩ := put_missing hnone .directory
    refine ⟨hkept, rfl, fun m e hm => (hmade m e hm).imp_right ?_⟩
    rintro ⟨rfl, rfl⟩
    exact ⟨rfl, p, rfl, locate_made hkept hlocate hput (by simp)⟩

/-! ### Files -/

/-- A text is put into the file that a path leads to. If there is none it is made, as are the
    directories that are missing on the way to it. Nothing else changes. -/
structure Wrote (p : Path) (text : String) (t t' : FileTree) : Prop extends Kept t t' where
  text : t'.readText p = .ok text
  made : ∀ l e, t'.at? l = some e → t.at? l = some e ∨
    (e = .directory ∧ ∃ d : Path, d.Above p ∧ t'.locate true d = .ok (.found l .directory)) ∨
    ∃ n, e = .file n ∧ t'.locate true p = .ok (.found l (.file n)) ∧
      ∀ m, t.at? m ≠ some (.file n)
  contents : ∀ n, t'.fileOf p ≠ .ok n → t'.contents n = t.contents n

/-- The file that is written is the one that the path leads to. -/
theorem Wrote.exists_file {p : Path} {text : String} (h : Wrote p text t t') :
    ∃ n, t'.fileOf p = .ok n ∧ t'.contents n = .text text :=
  readText_eq_ok_iff.mp h.text

/-- A file that is made has one name, where its path leads. -/
theorem Wrote.unlinked {p : Path} {text : String} (h : Wrote p text t t') (hlinks : Unlinked t) :
    Unlinked t' := by
  constructor
  · intro l target hl
    rcases h.made l _ hl with hold | ⟨he, -⟩ | ⟨n, he, -⟩
    · exact hlinks.no_link l target hold
    · cases he
    · cases he
  · intro l m n hl hm
    rcases h.made l _ hl with hl | ⟨he, -⟩ | ⟨n₁, he, hfound, hnew⟩
    · rcases h.made m _ hm with hm | ⟨he, -⟩ | ⟨n₂, he, -, hnew⟩
      · exact hlinks.one_name l m n hl hm
      · cases he
      · cases he
        exact absurd hl (hnew l)
    · cases he
    · cases he
      rcases h.made m _ hm with hm | ⟨he, -⟩ | ⟨n₂, he, hfound', -⟩
      · exact absurd hm (hnew m)
      · cases he
      · cases hfound.symm.trans hfound'
        rfl

/-- Filling a file, or making it, where directories were made before. -/
theorem Grown.wrote {t₁ : FileTree} {p : Path} {text : String} (h : Grown (·.Above p) t t₁)
    (hput : t₁.writeText p text = .ok t') : Wrote p text t t' := by
  unfold writeText at hput
  split at hput <;> cases hput
  · next l n hlocate =>
    have hkept : Kept t₁ (t₁.fill n (.text text)) := ⟨rfl, fun _ _ h => h⟩
    have hfile : (t₁.fill n (.text text)).fileOf p = .ok n :=
      fileOf_eq_ok_iff.mpr ⟨l, locate_kept hkept hlocate⟩
    refine ⟨h.toKept.trans hkept, ?_, ?_, ?_⟩
    · exact readText_eq_ok_iff.mpr ⟨n, hfile, by rw [contents_fill, if_pos rfl]⟩
    · intro m e hm
      refine (h.made m e hm).imp_right fun ⟨he, d, hd, hdirectory⟩ => ?_
      exact .inl ⟨he, d, hd, locate_kept hkept hdirectory⟩
    · intro m hother
      rw [contents_fill, if_neg, h.contents]
      rintro rfl
      exact hother hfile
  · next l hlocate =>
    have hnone : t₁.at? l = none := at?_of_locate hlocate (by simp [Place.entry?])
    obtain ⟨hkept, hput, hmade⟩ := put_missing hnone (.file t₁.fresh)
    have hkept' : Kept t₁ (t₁.putFile l (.text text)) := ⟨rfl, hkept.at?⟩
    have hfound : (t₁.putFile l (.text text)).locate true p = .ok (.found l (.file t₁.fresh)) :=
      locate_made hkept' hlocate hput (by simp)
    have hfile : (t₁.putFile l (.text text)).fileOf p = .ok t₁.fresh :=
      fileOf_eq_ok_iff.mpr ⟨l, hfound⟩
    refine ⟨h.toKept.trans hkept', ?_, ?_, ?_⟩
    · exact readText_eq_ok_iff.mpr ⟨_, hfile, by rw [putFile, contents_fill, if_pos rfl]⟩
    · intro m e hm
      rcases hmade m e hm with hold | ⟨rfl, rfl⟩
      · refine (h.made m e hold).imp_right fun ⟨he, d, hd, hdirectory⟩ => ?_
        exact .inl ⟨he, d, hd, locate_kept hkept' hdirectory⟩
      · exact .inr (.inr ⟨_, rfl, hfound, fun k hk => ne_fresh (h.at? k _ hk) rfl⟩)
    · intro m hother
      rw [putFile, contents_fill, if_neg]
      · exact congrFun h.contents m
      · rintro rfl
        exact hother hfile

/-! ### Actions -/

/-- A change goes on with the new tree, or it fails and leaves the old one. -/
theorem run_change_cases (result : FileTree → Except FileError FileTree) (t : FileTree) :
    (∃ new, result t = .ok new ∧ (change result).run t = (.ok (), new)) ∨
      ∃ e, result t = .error e ∧ (change result).run t = (.error e, t) := by
  cases h : result t with
  | ok new =>
    have hrun : (change result).run t = pure (.ok (), new) := by simp [change, h]
    exact .inl ⟨new, rfl, hrun⟩
  | error e =>
    have hrun : (change result).run t = pure (.error e, t) := by simp [change, h]
    exact .inr ⟨e, rfl, hrun⟩

section Actions

variable {α β : Type}

/-- An action that only asks. -/
def Asks (x : StateM FileTree α) : Prop := ∀ t, (x.run t).2 = t

namespace Asks

theorem pure (a : α) : Asks (Pure.pure a) := fun _ => rfl

theorem bind {x : StateM FileTree α} {f : α → StateM FileTree β} (hx : Asks x)
    (hf : ∀ a, Asks (f a)) : Asks (x >>= f) := fun t => (hf _ _).trans (hx t)

theorem gets (f : FileTree → α) : Asks (do return f (← get)) := fun _ => rfl

theorem unlessDirectory (p : Path) (e : FileError) : Asks (files.unlessDirectory p e) := by
  refine bind (gets _) fun there => ?_
  split <;> exact pure _

end Asks

/-- An action that only makes directories, at some of the paths `dirs`. -/
def Grows (dirs : Path → Prop) (x : StateM FileTree α) : Prop := ∀ t, Grown dirs t (x.run t).2

namespace Grows

variable {dirs dirs' : Path → Prop}

theorem of_asks {x : StateM FileTree α} (h : Asks x) : Grows dirs x := by
  intro t
  rw [h t]
  exact Grown.refl dirs t

theorem mono {x : StateM FileTree α} (h : Grows dirs x) (hsub : ∀ d, dirs d → dirs' d) :
    Grows dirs' x := fun t => (h t).mono hsub

theorem pure (a : α) : Grows dirs (Pure.pure a : StateM FileTree α) := of_asks (.pure a)

theorem bind {x : StateM FileTree α} {f : α → StateM FileTree β} (hx : Grows dirs x)
    (hf : ∀ a, Grows dirs (f a)) : Grows dirs (x >>= f) :=
  fun t => (hx t).trans (hf _ _)

theorem createDirectory (p : Path) : Grows (· = p) (files.createDirectory p) := by
  intro t
  rcases run_change_cases (·.createDirectory p) t with ⟨new, hnew, hrun⟩ | ⟨e, -, hrun⟩
  · rw [files, hrun]
    exact grown_createDirectory hnew
  · rw [files, hrun]
    exact Grown.refl _ t

/-- With a directory those on the way to it are made. -/
theorem createDirectories (p : Path) :
    Grows (fun d => d = p ∨ d.Above p) (files.createDirectories p) := by
  have hown : Grows (fun d => d = p ∨ d.Above p) (files.createDirectory p) :=
    (createDirectory p).mono fun _ => .inl
  rw [Files.createDirectories]
  split
  · exact pure _
  · refine bind hown fun made => ?_
    split
    · exact pure _
    · split
      · exact pure _
      · next above habove =>
        have hmade : Grows (fun d => d = p ∨ d.Above p) (files.createDirectories above) :=
          (createDirectories above).mono fun d hd => .inr <| by
            rcases hd with rfl | hd
            · exact .parent habove
            · exact .step habove hd
        refine bind hmade fun madeAbove => ?_
        split
        · exact pure _
        · refine bind hown fun again => ?_
          split
          · exact pure _
          · exact of_asks (.unlessDirectory p _)
    · exact of_asks (.unlessDirectory p _)
termination_by p.bytes.length
decreasing_by exact Path.length_parent_lt ‹_›

end Grows

end Actions

end FileTree

end FlatSchema
