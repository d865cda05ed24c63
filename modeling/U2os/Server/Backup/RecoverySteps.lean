import U2os.Server.Backup.RecoveryPhases

/-!
# The steps of a review of connectivity

The parts of the review, each with the homes there are on the way and the one at its end: the
directories, the inventory, the files one after another, the transaction and the marker.

## Main results

* `committed_commit`, `Committed.set_marker` : the transaction, and the marker after it.
-/

namespace U2os.Server.Backup

open Script List Option FileTree

section Steps

variable {D : Digests} {base h t : Home} {marker : Marker} {db : RecoveryDb} {s : Survey}
  {id : String} {now : ℕ} {p : List String} {C : Home → Prop} {Q : Option Unit → Home → Prop}

/-! ### The directories -/

theorem isDirectory_set_dir (home : Home) (p : List String) :
    isDirectory (home.set p .dir) p = true := by
  unfold isDirectory
  rw [node?_set, if_pos rfl]
  rfl

theorem wp_makeDirectory (hfree : isFree h p = true)
    (hold : isDirectory h p = true → C h ∧ Q (some ()) h)
    (hnew : h.node? p = none → C h ∧ C (h.set p .dir) ∧ Q (some ()) (h.set p .dir)) :
    (makeDirectory p).wp C Q h := by
  unfold makeDirectory
  refine wp_get_bind ?_
  rw [wp_bind]
  refine wp_when (fun hnone => ?_) fun hsome => ?_
  · obtain ⟨h₁, h₂, hend⟩ := hnew (isNone_iff_eq_none.1 hnone)
    refine ⟨h₁, h₂, wp_get_bind (wp_ensure.2 ⟨h₂, fun _ => hend, fun hnot => ?_⟩)⟩
    exact absurd (isDirectory_set_dir h p) hnot
  · have hdir : isDirectory h p = true := by
      unfold isFree at hfree
      unfold isDirectory
      cases hp : h.node? p with
      | none => exact absurd (isNone_iff_eq_none.2 hp) hsome
      | some n => simpa [hp] using hfree
    obtain ⟨h₁, hend⟩ := hold hdir
    exact ⟨h₁, wp_get_bind (wp_ensure.2 ⟨h₁, fun _ => hend, fun hnot => absurd hdir hnot⟩)⟩

theorem head?_of_mem_reviewDirectories (hp : p ∈ reviewDirectories marker) :
    p.head? = some "recovery-review" := by
  simp only [reviewDirectories, reviewDirectory, take, mem_cons, not_mem_nil,
    or_false] at hp
  rcases hp with rfl | rfl | rfl <;> rfl

theorem Opened.makeDirectory (ho : Opened base marker db h) (hp : p ∈ reviewDirectories marker)
    (hnone : h.node? p = none) : Opened base marker db (h.set p .dir) := by
  have hother : ∀ q, q.head? ≠ some "recovery-review" → (h.set p .dir).node? q = h.node? q := by
    intro q hq
    rw [node?_set, if_neg]
    rintro rfl
    exact hq (head?_of_mem_reviewDirectories hp)
  refine ⟨⟨?_, ?_, fun q hq h₁ h₂ h₃ h₄ => ?_⟩, fun q hq hq' => ?_⟩
  · rw [hother _ (by decide), ho.markerAt]
  · rw [hother _ (by decide), ho.databaseAt]
  · rw [hother q h₁, ho.frame q hq h₁ h₂ h₃ h₄]
  · rw [node?_set]
    split_ifs with heq
    · subst heq
      rcases ho.review q hq hq' with hsame | ⟨_, _, hdir⟩
      · exact .inr ⟨hp, hsame ▸ hnone, rfl⟩
      · rw [hdir] at hnone
        cases hnone
    · exact ho.review q hq hq'

/-- Opening the directories of a review, wherever it stops, leaves the review opened. -/
theorem wp_openDirectories (ho : Opened base marker db h)
    (hfree : ∀ p ∈ reviewDirectories marker, isFree base p = true)
    (hC : ∀ t, Opened base marker db t → C t)
    (hend : ∀ t, Opened base marker db t →
      (∀ p ∈ reviewDirectories marker, isDirectory t p = true) → Q (some ()) t) :
    (privateDirectory marker true).wp C Q h := by
  have hfree' : ∀ t, Opened base marker db t → ∀ p ∈ reviewDirectories marker,
      isFree t p = true := by
    intro t ht p hp
    unfold isFree
    rcases ht.review p (isStaging_reviewDirectories hp) (head?_of_mem_reviewDirectories hp) with
      hsame | ⟨_, _, hdir⟩
    · rw [hsame]
      exact hfree p hp
    · rw [hdir]
      rfl
  refine wp_forEach (I := fun l t => Opened base marker db t ∧ l ⊆ reviewDirectories marker ∧
    ∀ p ∈ reviewDirectories marker, p ∈ l ∨ isDirectory t p = true) ?_ ?_ ?_ ?_
  · exact ⟨ho, List.Subset.refl _, fun p hp => .inl hp⟩
  · exact fun _ t ht => hC t ht.1
  · rintro p l t ⟨ht, hsub, hmade⟩
    have hp := hsub mem_cons_self
    refine wp_makeDirectory (hfree' t ht p hp) (fun hdir => ⟨hC t ht, ht, ?_, ?_⟩) fun hnone => ?_
    · exact fun q hq => hsub (mem_cons_of_mem _ hq)
    · intro q hq
      rcases hmade q hq with hmem | hdir'
      · rcases mem_cons.1 hmem with rfl | hmem
        · exact .inr hdir
        · exact .inl hmem
      · exact .inr hdir'
    · have hset := ht.makeDirectory hp hnone
      refine ⟨hC t ht, hC _ hset, hset, fun q hq => hsub (mem_cons_of_mem _ hq),
        fun q hq => ?_⟩
      by_cases heq : q = p
      · exact .inr (heq ▸ isDirectory_set_dir t p)
      · rcases hmade q hq with hmem | hdir'
        · exact .inl (mem_of_ne_of_mem heq hmem)
        · right
          unfold isDirectory at hdir' ⊢
          rwa [node?_set, if_neg heq]
  · exact fun t ht => hend t ht.1 fun p hp => (ht.2.2 p hp).resolve_left not_mem_nil

theorem wp_privateDirectory (create : Bool) (hC : C h) (hend : Q (some ()) h)
    (hmade : ∀ p ∈ reviewDirectories marker, isDirectory h p = true) :
    (privateDirectory marker create).wp C Q h := by
  cases create with
  | false =>
    refine wp_get_bind (wp_ensure.2 ⟨hC, fun _ => hend, fun hnot => ?_⟩)
    exact absurd (List.all_eq_true.2 hmade) hnot
  | true =>
    refine wp_forEach (I := fun l t => t = h ∧ l ⊆ reviewDirectories marker) ⟨rfl, fun _ h => h⟩
      (fun _ t ht => ht.1 ▸ hC) ?_ fun t ht => ht.1 ▸ hend
    rintro p l t ⟨rfl, hsub⟩
    have hdir := hmade p (hsub mem_cons_self)
    have hsome : t.node? p ≠ none := by
      intro hnone
      unfold isDirectory at hdir
      rw [hnone] at hdir
      cases hdir
    refine wp_makeDirectory ?_ (fun _ => ⟨hC, rfl, ?_⟩) fun hnone => absurd hnone hsome
    · unfold isDirectory at hdir
      unfold isFree
      rw [Option.any_eq_true] at hdir
      obtain ⟨n, hn, hdir⟩ := hdir
      rw [hn, all_some, hdir]
    · exact fun q hq => hsub (mem_cons_of_mem _ hq)

/-! ### The inventory -/

theorem Opened.nothing (ho : Opened base (s.opened id) s.db h) (hr : Ready D base s) {name : String}
    {rest : List String}
    (hstage : isStaging (reviewDirectory (s.opened id) ++ name :: rest) = false) :
    h.node? (reviewDirectory (s.opened id) ++ name :: rest) = none := by
  rcases ho.review _ hstage rfl with hsame | ⟨hmem, _⟩
  · rw [hsame]
    exact hr.nothing _ ⟨id :: name :: rest, rfl⟩
  · simp [reviewDirectories, reviewDirectory] at hmem

/-- With its inventory written, the plan is published. -/
theorem Opened.set_inventory (ho : Opened base (s.opened id) s.db h) (hr : Ready D base s)
    (hmade : ∀ p ∈ reviewDirectories (s.opened id), isDirectory h p = true) (now : ℕ) :
    Published base (s.opened id) s.db (s.plan id now)
      (h.set (inventoryFile (s.opened id)) (.file (.inventory (s.plan id now)))) := by
  have hi := hr.inventoried id now
  have hother : ∀ p, p ≠ inventoryFile (s.opened id) →
      (h.set (inventoryFile (s.opened id)) (.file (.inventory (s.plan id now)))).node? p =
        h.node? p := by
    intro p hp
    rw [node?_set, if_neg hp]
  have houtside : ∀ p, p.head? ≠ some "recovery-review" → p ≠ inventoryFile (s.opened id) := by
    rintro p hp rfl
    exact hp rfl
  refine ⟨⟨?_, ?_, fun p hp h₁ _ h₃ h₄ => ?_⟩, ?_, fun p hp => ?_, fun x hx => ?_, fun x hx => ?_,
    fun x hx => ?_⟩
  · rw [hother _ (houtside _ (by decide)), ho.markerAt]
  · rw [hother _ (houtside _ (by decide)), ho.databaseAt]
  · rw [hother p (houtside p h₁), ho.frame p hp h₁ not_mem_nil h₃ h₄]
  · rw [node?_set, if_pos rfl]
  · unfold isDirectory
    rw [hother p ?_]
    · exact hmade p hp
    · rintro rfl
      simp [reviewDirectories, reviewDirectory, inventoryFile] at hp
  · obtain ⟨folder, name, hpath, hfolder⟩ := allowedFile_eq (hi.file hx).1
    have hstage := isStaging_heldFolder (s.opened id) (hi.file hx).1
    unfold isFree
    rw [hpath, show [folder, name].dropLast = [folder] from rfl] at hstage ⊢
    rw [hother _ ?_, ho.nothing hr hstage]
    · rfl
    · rcases hfolder with rfl | rfl <;> simp [inventoryFile, reviewDirectory]
  · left
    obtain ⟨folder, name, hpath, hfolder⟩ := allowedFile_eq (hi.file hx).1
    rw [hpath, hother _ (houtside _ ?_)]
    · exact ho.toFramed.node?_folder hfolder not_mem_nil
    · rcases hfolder with rfl | rfl <;> simp
  · right
    obtain ⟨folder, name, hpath, hfolder⟩ := allowedFile_eq (hi.file hx).1
    have hstage := isStaging_held (s.opened id) (hi.file hx).1
    obtain ⟨_, _, c, hc, _⟩ := hi.file hx
    rw [hpath] at hstage hc ⊢
    rw [hother _ (by simp [inventoryFile, reviewDirectory]), hother _ (houtside _ ?_)]
    · refine ⟨ho.nothing hr hstage, ?_⟩
      rw [ho.toFramed.node?_folder hfolder not_mem_nil, hc]
      exact some_ne_none _
    · rcases hfolder with rfl | rfl <;> simp

theorem wp_ensureInventory_of_opened (ho : Opened base (s.opened id) s.db h) (hr : Ready D base s)
    (hmade : ∀ p ∈ reviewDirectories (s.opened id), isDirectory h p = true) {fresh : Fresh}
    (hold : ∀ t, Opened base (s.opened id) s.db t → C t)
    (hnew : ∀ t, Published base (s.opened id) s.db (s.plan id fresh.now) t → C t ∧ Q (some ()) t) :
    (ensureInventory true fresh { s with marker := s.opened id }).wp C Q h := by
  have hnone : ∀ t, Opened base (s.opened id) s.db t →
      (t.node? (inventoryFile (s.opened id))).isNone = true := fun t ht => by
    rw [isNone_iff_eq_none]
    exact ht.nothing hr isStaging_inventoryFile
  unfold ensureInventory
  refine wp_get_bind (wp_when (fun _ => ?_) fun hsome => absurd (hnone h ho) hsome)
  refine wp_ensure_bind (fun hnot => absurd ⟨rfl, hr.quarantine⟩ hnot) fun _ => ?_
  refine wp_ensure_bind (fun hnot => ?_) fun _ => ?_
  · refine absurd (List.all_eq_true.2 fun name hname => ?_) hnot
    -- what is not a staging directory would be one of the review, or older
    by_contra hstage
    rw [mem_readdir] at hname
    rw [ho.nothing hr (isStaging_inReview name (Bool.eq_false_of_not_eq_true hstage))] at hname
    cases hname
  · refine wp_publishFile (.inventory (s.plan id fresh.now)) (fun rest => ?_)
      (fun _ _ => rfl) (fun t ht _ => hnone t (ho.sameBut ht)) (fun t ht => hold t (ho.sameBut ht))
      fun t ht => hnew t ?_
    · simp [isStaging, stages, reviewDirectory, isStageName_append]
    · exact (ho.set_inventory hr hmade fresh.now).sameBut (hr.inventoried _ _) ht

theorem wp_ensureInventory_of_published {i : Inventory} {apply : Bool} {fresh : Fresh}
    (hp : h.node? (inventoryFile s.marker) = some (.file (.inventory i)))
    (hC : C h) (hend : Q (some ()) h) : (ensureInventory apply fresh s).wp C Q h := by
  unfold ensureInventory
  refine wp_get_bind (wp_when (fun hnone => ?_) fun _ => ⟨hC, hend⟩)
  rw [hp] at hnone
  cases hnone

/-! ### The files -/

variable {i : Inventory} {x y : InventoryFile}

theorem Published.of_agree (hp : Published base marker db i h) (hi : Inventoried D base i)
    (hout : ∀ q, q.head? ≠ some "recovery-review" → q ∉ i.files.map InventoryFile.path →
      t.node? q = h.node? q)
    (hreview : ∀ q, q = inventoryFile marker ∨ q ∈ reviewDirectories marker →
      t.node? q = h.node? q)
    (hfolders : ∀ x ∈ i.files, isFree t (reviewDirectory marker ++ x.path.dropLast) = true)
    (hsources : ∀ x ∈ i.files, t.node? x.path = base.node? x.path ∨ t.node? x.path = none)
    (hheld : ∀ x ∈ i.files, t.node? (reviewDirectory marker ++ x.path) = base.node? x.path ∨
      t.node? (reviewDirectory marker ++ x.path) = none ∧ t.node? x.path ≠ none) :
    Published base marker db i t where
  markerAt := by
    rw [hout _ (by decide) fun hmem => absurd (hi.allowed _ hmem) (by decide), hp.markerAt]
  databaseAt := by
    rw [hout _ (by decide) fun hmem => absurd (hi.allowed _ hmem) (by decide), hp.databaseAt]
  frame q hq h₁ h₂ h₃ h₄ := by
    rw [hout q h₁ h₂, hp.frame q hq h₁ h₂ h₃ h₄]
  inventoryAt := by rw [hreview _ (.inl rfl), hp.inventoryAt]
  directories q hq := by
    unfold isDirectory
    rw [hreview q (.inr hq)]
    exact hp.directories q hq
  folders := hfolders
  sources := hsources
  held := hheld

theorem head?_of_allowedFile (hx : allowedFile p = true) : p.head? ≠ some "recovery-review" := by
  obtain ⟨folder, name, rfl, rfl | rfl⟩ := allowedFile_eq hx <;> simp

theorem heldFolder_ne (marker : Marker) (hx : allowedFile p = true) :
    reviewDirectory marker ++ p.dropLast ≠ inventoryFile marker ∧
      reviewDirectory marker ++ p.dropLast ∉ reviewDirectories marker ∧
      ∀ q, allowedFile q = true → reviewDirectory marker ++ p.dropLast ≠ reviewDirectory marker ++ q := by
  obtain ⟨folder, name, rfl, hfolder⟩ := allowedFile_eq hx
  refine ⟨?_, by simp [reviewDirectories, reviewDirectory], fun q hq => ?_⟩
  · rcases hfolder with rfl | rfl <;> simp [inventoryFile]
  · obtain ⟨folder', name', rfl, _⟩ := allowedFile_eq hq
    simp

theorem held_ne (marker : Marker) (hx : allowedFile p = true) :
    reviewDirectory marker ++ p ≠ inventoryFile marker ∧
      reviewDirectory marker ++ p ∉ reviewDirectories marker := by
  obtain ⟨folder, name, rfl, hfolder⟩ := allowedFile_eq hx
  exact ⟨by simp [inventoryFile], by simp [reviewDirectories, reviewDirectory]⟩

theorem Published.set_review (hp : Published base marker db i h) (hi : Inventoried D base i)
    {p : List String} {n : Node Content} (hinventory : reviewDirectory marker ++ p ≠ inventoryFile marker)
    (hdirectories : reviewDirectory marker ++ p ∉ reviewDirectories marker)
    (hfolders : ∀ y ∈ i.files, y.path.dropLast = p → n = .dir)
    (hheld : ∀ y ∈ i.files, y.path = p → base.node? y.path = some n) :
    Published base marker db i (h.set (reviewDirectory marker ++ p) n) := by
  have hsource : ∀ q, q.head? ≠ some "recovery-review" → q ≠ reviewDirectory marker ++ p := by
    rintro q hq rfl
    exact hq rfl
  refine hp.of_agree hi (fun q hq _ => ?_) (fun q hq => ?_) (fun y hy => ?_) (fun y hy => ?_)
    fun y hy => ?_
  · rw [node?_set, if_neg (hsource q hq)]
  · rw [node?_set, if_neg]
    rintro rfl
    exact hq.elim hinventory hdirectories
  · unfold isFree
    rw [node?_set]
    split_ifs with heq
    · rw [hfolders y hy (append_cancel_left heq)]
      rfl
    · exact hp.folders y hy
  · rw [node?_set, if_neg (hsource _ (head?_of_allowedFile (hi.file hy).1))]
    exact hp.sources y hy
  · rw [node?_set, node?_set,
      if_neg (hsource _ (head?_of_allowedFile (hi.file hy).1))]
    split_ifs with heq
    · exact .inl (hheld y hy (append_cancel_left heq)).symm
    · exact hp.held y hy

theorem Published.set_folder (hp : Published base marker db i h) (hi : Inventoried D base i)
    (hx : x ∈ i.files) :
    Published base marker db i (h.set (reviewDirectory marker ++ x.path.dropLast) .dir) := by
  obtain ⟨hinventory, hdirectories, hheld⟩ := heldFolder_ne marker (hi.file hx).1
  exact hp.set_review hi hinventory hdirectories (fun _ _ _ => rfl)
    fun y hy heq => absurd (heq ▸ rfl) (hheld _ (hi.file hy).1)

theorem Published.set_held (hp : Published base marker db i h) (hi : Inventoried D base i)
    (hx : x ∈ i.files) {n : Node Content} (hn : base.node? x.path = some n) :
    Published base marker db i (h.set (reviewDirectory marker ++ x.path) n) := by
  obtain ⟨hinventory, hdirectories⟩ := held_ne marker (hi.file hx).1
  refine hp.set_review hi hinventory hdirectories (fun y hy heq => ?_) fun y _ heq => heq ▸ hn
  exact absurd (congrArg _ heq) ((heldFolder_ne marker (hi.file hy).1).2.2 _ (hi.file hx).1)

theorem Published.remove_source (hp : Published base marker db i h) (hi : Inventoried D base i)
    (hx : x ∈ i.files) (hheld : h.node? (reviewDirectory marker ++ x.path) = base.node? x.path) :
    Published base marker db i (h.remove x.path) := by
  have hreview : ∀ q, q.head? = some "recovery-review" → q ≠ x.path := by
    rintro q hq rfl
    exact head?_of_allowedFile (hi.file hx).1 hq
  refine hp.of_agree hi (fun q hq hmem => ?_) (fun q hq => ?_) (fun y hy => ?_) (fun y hy => ?_)
    fun y hy => ?_
  · rw [node?_remove, if_neg]
    rintro rfl
    exact hmem (List.mem_map_of_mem hx)
  · rw [node?_remove, if_neg (hreview q ?_)]
    rcases hq with rfl | hq
    · rfl
    · exact head?_of_mem_reviewDirectories hq
  · unfold isFree
    rw [node?_remove, if_neg (hreview _ rfl)]
    exact hp.folders y hy
  · rw [node?_remove]
    split_ifs
    · exact .inr rfl
    · exact hp.sources y hy
  · rw [node?_remove, node?_remove, if_neg (hreview _ rfl)]
    split_ifs with heq
    · rw [heq]
      exact .inl hheld
    · exact hp.held y hy

/-- Published, and some files are moved. -/
structure Moving (base : Home) (marker : Marker) (db : RecoveryDb) (i : Inventory)
    (done : InventoryFile → Prop) (h : Home) : Prop extends Published base marker db i h where
  moved : ∀ y ∈ i.files, done y → Moved base marker h y

variable {done : InventoryFile → Prop}

theorem Moving.sameBut (hm : Moving base marker db i done h) (hi : Inventoried D base i)
    (ht : SameBut h t) : Moving base marker db i done t where
  toPublished := hm.toPublished.sameBut hi ht
  moved y hy hd := (hm.moved y hy hd).sameBut (hi.file hy).1 ht

theorem Moving.set_folder (hm : Moving base marker db i done h) (hi : Inventoried D base i)
    (hx : x ∈ i.files) :
    Moving base marker db i done (h.set (reviewDirectory marker ++ x.path.dropLast) .dir) where
  toPublished := hm.toPublished.set_folder hi hx
  moved y hy hd := by
    obtain ⟨hsource, hheld⟩ := hm.moved y hy hd
    have hne := (heldFolder_ne marker (hi.file hx).1).2.2 _ (hi.file hy).1
    refine ⟨?_, by rw [node?_set, if_neg hne.symm, hheld]⟩
    rw [node?_set, if_neg, hsource]
    exact fun heq => head?_of_allowedFile (hi.file hy).1 (heq ▸ rfl)

theorem Moving.set_held (hm : Moving base marker db i done h) (hi : Inventoried D base i)
    (hx : x ∈ i.files) {n : Node Content} (hn : base.node? x.path = some n) :
    Moving base marker db i done (h.set (reviewDirectory marker ++ x.path) n) where
  toPublished := hm.toPublished.set_held hi hx hn
  moved y hy hd := by
    obtain ⟨hsource, hheld⟩ := hm.moved y hy hd
    constructor
    · rw [node?_set, if_neg, hsource]
      exact fun heq => head?_of_allowedFile (hi.file hy).1 (heq ▸ rfl)
    · rw [node?_set]
      split_ifs with heq
      · rw [append_cancel_left heq, hn]
      · exact hheld

theorem Moving.remove_source (hm : Moving base marker db i done h) (hi : Inventoried D base i)
    (hx : x ∈ i.files) (hheld : h.node? (reviewDirectory marker ++ x.path) = base.node? x.path) :
    Moving base marker db i done (h.remove x.path) where
  toPublished := hm.toPublished.remove_source hi hx hheld
  moved y hy hd := by
    obtain ⟨hsource, hheld'⟩ := hm.moved y hy hd
    constructor
    · rw [node?_remove]
      split_ifs
      · rfl
      · exact hsource
    · rw [node?_remove, if_neg, hheld']
      exact fun heq => head?_of_allowedFile (hi.file hx).1 (heq ▸ rfl)

theorem dropLast_held (hx : allowedFile p = true) :
    (reviewDirectory marker ++ p).dropLast = reviewDirectory marker ++ p.dropLast := by
  obtain ⟨folder, name, rfl, _⟩ := allowedFile_eq hx
  rfl

theorem isStaging_copyStage (hx : allowedFile p = true) (suffix : Suffix) (rest : List String) :
    isStaging ((reviewDirectory marker ++ p).dropLast ++ [".copy-stage-" ++ suffix.1] ++ rest) =
      true := by
  obtain ⟨folder, name, rfl, _⟩ := allowedFile_eq hx
  simp [isStaging, stages, reviewDirectory, isStageName_append]

theorem wp_copyFile (hm : Moving base marker db i done h) (hi : Inventoried D base i)
    (hx : x ∈ i.files) {suffix : Suffix}
    (hnone : h.node? (reviewDirectory marker ++ x.path) = none)
    (hC : ∀ t, Moving base marker db i done t → C t)
    (hend : ∀ t, Moving base marker db i done t →
      t.node? (reviewDirectory marker ++ x.path) = base.node? x.path → Q (some ()) t) :
    (copyFile D suffix x.path (reviewDirectory marker ++ x.path) x).wp C Q h := by
  obtain ⟨hallowed, hsmall, c, hc, hlength, hhash⟩ := hi.file hx
  have hstage := isStaging_held marker hallowed
  -- what is not held is at its path
  have hsource : h.node? x.path = some (.file (.bytes c)) := by
    rcases hm.held x hx with hheld | ⟨_, hne⟩
    · rw [hnone, hc] at hheld
      cases hheld
    · rcases hm.sources x hx with hsame | hgone
      · rw [hsame, hc]
      · exact absurd hgone hne
  refine wp_publishFile (.bytes c) (isStaging_copyStage hallowed suffix)
    (fun t ht => ?_) (fun t ht hpayload => ?_) (fun t ht => hC t (hm.sameBut hi ht)) fun t ht => ?_
  · rw [read?, ht _ (isStaging_allowedFile hallowed), hsource]
    rfl
  · rw [Bool.and_eq_true]
    refine ⟨isSame_of_node? hpayload hsmall hlength hhash, ?_⟩
    rw [ht _ hstage, hnone]
    rfl
  · have hset := (hm.set_held hi hx hc).sameBut hi ht
    refine ⟨hC t hset, hend t hset ?_⟩
    rw [ht _ hstage, node?_set, if_pos rfl, hc]

theorem wp_dropSource (hm : Moving base marker db i done h) (hi : Inventoried D base i)
    (hx : x ∈ i.files) (hheld : h.node? (reviewDirectory marker ++ x.path) = base.node? x.path)
    (hC : ∀ t, Moving base marker db i done t → C t)
    (hend : ∀ t, Moving base marker db i done t → Moved base marker t x → Q (some ()) t) :
    (when ((h.node? x.path).isSome = true) (do
      ensure (isSame D h x.path x = true)
      modify fun home => home.remove x.path)).wp C Q h := by
  have hallowed := (hi.file hx).1
  refine wp_when (fun hsome => ?_) fun hnone => ?_
  · have hsame : h.node? x.path = base.node? x.path := by
      rcases hm.sources x hx with hsame | hgone
      · exact hsame
      · rw [hgone] at hsome
        cases hsome
    refine wp_ensure_bind (fun hnot => absurd (hi.isSame hx hsame) hnot) fun _ => ?_
    have hremoved := hm.remove_source hi hx hheld
    refine ⟨hC h hm, hC _ hremoved, hend _ hremoved ⟨?_, ?_⟩⟩
    · rw [node?_remove, if_pos rfl]
    · rw [node?_remove, if_neg, hheld]
      exact fun heq => head?_of_allowedFile hallowed (heq ▸ rfl)
  · rw [Bool.not_eq_true, isSome_eq_false_iff, isNone_iff_eq_none] at hnone
    exact ⟨hC h hm, hend h hm ⟨hnone, hheld⟩⟩

/-- A file is moved into the review directory, or it is there already. -/
theorem wp_holdFile (hm : Moving base marker db i done h) (hi : Inventoried D base i)
    (hx : x ∈ i.files) {suffix : Suffix} (hC : ∀ t, Moving base marker db i done t → C t)
    (hend : ∀ t, Moving base marker db i done t → Moved base marker t x → Q (some ()) t) :
    (holdFile D suffix (reviewDirectory marker) x).wp C Q h := by
  have hallowed := (hi.file hx).1
  have hheld : ∀ t, Moving base marker db i done t →
      t.node? (reviewDirectory marker ++ x.path) = base.node? x.path →
      (do
        let home ← get
        ensure (isSame D home (reviewDirectory marker ++ x.path) x = true)
        when ((home.node? x.path).isSome = true) (do
          ensure (isSame D home x.path x = true)
          modify fun home => home.remove x.path) : Script Home Unit).wp C Q t := by
    intro t ht hnode
    refine wp_get_bind (wp_ensure_bind (fun hnot => absurd (hi.isSame hx hnode) hnot) fun _ => ?_)
    exact wp_dropSource ht hi hx hnode hC hend
  have hcopy : ∀ t, Moving base marker db i done t →
      (do
        let home ← get
        when ((home.node? (reviewDirectory marker ++ x.path)).isNone = true)
          (copyFile D suffix x.path (reviewDirectory marker ++ x.path) x)
        let home ← get
        ensure (isSame D home (reviewDirectory marker ++ x.path) x = true)
        when ((home.node? x.path).isSome = true) (do
          ensure (isSame D home x.path x = true)
          modify fun home => home.remove x.path) : Script Home Unit).wp C Q t := by
    intro t ht
    refine wp_get_bind ?_
    rw [wp_bind]
    refine wp_when (fun hnone => ?_) fun hsome => ⟨hC t ht, hheld t ht ?_⟩
    · exact wp_copyFile ht hi hx (isNone_iff_eq_none.1 hnone) hC hheld
    · rcases ht.held x hx with hnode | ⟨hnone, _⟩
      · exact hnode
      · exact absurd (isNone_iff_eq_none.2 hnone) hsome
  unfold holdFile
  dsimp only
  rw [wp_bind, dropLast_held hallowed]
  refine wp_makeDirectory (hm.folders x hx) (fun _ => ⟨hC h hm, hcopy h hm⟩) fun _ => ?_
  have hset := hm.set_folder hi hx
  exact ⟨hC h hm, hC _ hset, hcopy _ hset⟩

theorem wp_moveFiles (hp : Published base marker db i h) (hi : Inventoried D base i)
    {suffix : Suffix} (hC : ∀ t, Published base marker db i t → C t)
    (hend : ∀ t, Published base marker db i t → (∀ x ∈ i.files, Moved base marker t x) →
      Q (some ()) t) :
    (forEach i.files (holdFile D suffix (reviewDirectory marker))).wp C Q h := by
  refine wp_forEach (I := fun l t => l ⊆ i.files ∧ Moving base marker db i (· ∉ l) t)
    ⟨List.Subset.refl _, hp, fun y hy hd => absurd hy hd⟩ (fun _ t ht => hC t ht.2.toPublished) ?_
    fun t ht => hend t ht.2.toPublished fun x hx => ht.2.moved x hx not_mem_nil
  rintro x l t ⟨hsub, hm⟩
  refine wp_holdFile hm hi (hsub mem_cons_self) (fun u hu => hC u hu.toPublished)
    fun u hu hmoved => ⟨fun y hy => hsub (mem_cons_of_mem _ hy), hu.toPublished, ?_⟩
  intro y hy hd
  by_cases heq : y = x
  · exact heq ▸ hmoved
  · exact hu.moved y hy fun hmem => hd (mem_of_ne_of_mem heq hmem)

/-- A published plan stays so when the marker and the database are rewritten. -/
theorem Published.rewritten {marker' : Marker} {db' : RecoveryDb}
    (hp : Published base marker db i h) (hi : Inventoried D base i)
    (hdir : reviewDirectory marker' = reviewDirectory marker)
    (hmarker : t.node? recoveryFile = some (.file (.marker marker')))
    (hdb : t.node? databaseFile = some (.file (.database db')))
    (hout : ∀ p, p ≠ recoveryFile → p ≠ databaseFile → t.node? p = h.node? p) :
    Published base marker' db' i t := by
  have hne : ∀ q, q.head? = some "recovery-review" → q ≠ recoveryFile ∧ q ≠ databaseFile := by
    intro q hq
    constructor <;> (rintro rfl; exact absurd hq (by decide))
  have hsource : ∀ q, allowedFile q = true → q ≠ recoveryFile ∧ q ≠ databaseFile := by
    intro q hq
    constructor <;> (rintro rfl; exact absurd hq (by decide))
  have hreview : ∀ rest, t.node? (reviewDirectory marker ++ rest) =
      h.node? (reviewDirectory marker ++ rest) := fun rest =>
    hout _ (hne _ rfl).1 (hne _ rfl).2
  refine ⟨⟨hmarker, hdb, fun p hp' h₁ h₂ h₃ h₄ => ?_⟩, ?_, fun p hmem => ?_, fun x hx => ?_,
    fun x hx => ?_, fun x hx => ?_⟩
  · rw [hout p h₃ h₄, hp.frame p hp' h₁ h₂ h₃ h₄]
  · unfold inventoryFile
    rw [hdir, hreview]
    exact hp.inventoryAt
  · unfold reviewDirectories at hmem
    rw [hdir] at hmem
    have hhead := head?_of_mem_reviewDirectories (show p ∈ reviewDirectories marker from hmem)
    unfold isDirectory
    rw [hout p (hne p hhead).1 (hne p hhead).2]
    exact hp.directories p hmem
  · unfold isFree
    rw [hdir, hreview]
    exact hp.folders x hx
  · rw [hout _ (hsource _ (hi.file hx).1).1 (hsource _ (hi.file hx).1).2]
    exact hp.sources x hx
  · rw [hdir, hreview, hout _ (hsource _ (hi.file hx).1).1 (hsource _ (hi.file hx).1).2]
    exact hp.held x hx

theorem Moved.rewritten {marker' : Marker} (hm : Moved base marker h x)
    (hx : allowedFile x.path = true) (hdir : reviewDirectory marker' = reviewDirectory marker)
    (hout : ∀ p, p ≠ recoveryFile → p ≠ databaseFile → t.node? p = h.node? p) :
    Moved base marker' t x := by
  unfold Moved
  rw [hdir, hout _ ?_ ?_, hout (_ ++ _) ?_ ?_]
  · exact hm
  · exact fun heq => absurd (congrArg head? heq) (by simp [reviewDirectory, recoveryFile])
  · exact fun heq => absurd (congrArg head? heq) (by simp [reviewDirectory, databaseFile])
  · rintro heq
    rw [heq] at hx
    exact absurd hx (by decide)
  · rintro heq
    rw [heq] at hx
    exact absurd hx (by decide)

theorem commit_eq (hdb : h.node? databaseFile = some (.file (.database db)))
    (f : RecoveryDb → RecoveryDb) :
    commit f h = h.set databaseFile (.file (.database (f db))) := by
  unfold commit read?
  rw [hdb]
  rfl

theorem committed_commit (hr : Ready D base s)
    (hp : Published base (s.opened id) s.db (s.plan id now) h)
    (hmoved : ∀ x ∈ s.files, Moved base (s.opened id) h x) :
    Committed base s id now (s.opened id) (commit (fun db =>
      quarantineConnectivity db (s.marker.recoveryId.getD "") (s.plan id now).receipt) h) := by
  have hi := hr.inventoried id now
  rw [commit_eq hp.databaseAt]
  have hout : ∀ p, p ≠ recoveryFile → p ≠ databaseFile →
      (h.set databaseFile (.file (.database (quarantineConnectivity s.db
        (s.marker.recoveryId.getD "") (s.plan id now).receipt)))).node? p = h.node? p := by
    intro p _ hne
    rw [node?_set, if_neg hne]
  refine ⟨hp.rewritten hi rfl ?_ ?_ hout, fun x hx => ?_⟩
  · rw [node?_set, if_neg (by decide), hp.markerAt]
  · rw [node?_set, if_pos rfl]
  · exact (hmoved x hx).rewritten (hi.file hx).1 rfl hout

theorem Committed.set_marker (hc : Committed base s id now marker h) (hr : Ready D base s)
    (hm : s.isClosing id now marker) :
    Committed base s id now (s.closed id now)
      (h.set recoveryFile (.file (.marker (s.closed id now)))) := by
  have hi := hr.inventoried id now
  have hdir : reviewDirectory (s.closed id now) = reviewDirectory marker := by
    rcases hm with rfl | rfl <;> rfl
  have hout : ∀ p, p ≠ recoveryFile → p ≠ databaseFile →
      (h.set recoveryFile (.file (.marker (s.closed id now)))).node? p = h.node? p := by
    intro p hne _
    rw [node?_set, if_neg hne]
  refine ⟨hc.toPublished.rewritten hi hdir ?_ ?_ hout, fun x hx => ?_⟩
  · rw [node?_set, if_pos rfl]
  · rw [node?_set, if_neg (by decide), hc.databaseAt]
  · exact (hc.moved x hx).rewritten (hi.file hx).1 hdir hout

end Steps

end U2os.Server.Backup
