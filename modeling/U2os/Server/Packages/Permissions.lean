import Mathlib.Data.Set.Basic
import U2os.Lib.Dotted
import U2os.Lib.JsText

/-!
# Permissions of packages

What a package may do (`packages/permissions.js`).  A permission is a text: one of a fixed list, or
`filesystem.read:` or `filesystem.write:` and a scope.  A scope names a place of the storage by a
dotted path, or with `.*` at its end all places below one.  A permission that is held covers one
that is required if the two are the same, or by comparing the texts of their scopes.

The meaning of a permission is the set of what it lets one do; `covers` is inclusion of meanings.
-/

namespace U2os.Server.Packages.Permissions

open List

/-- The values of `BOOLEAN_PERMISSIONS`, then `FLAG_PERMISSIONS` and the network: `KNOWN`. -/
def known : List String :=
  ["email.read", "email.draft", "email.send", "calendar.read", "calendar.write", "contacts.read",
    "contacts.write", "tasks.read", "tasks.write", "notifications.send", "browser.navigate",
    "browser.submit_forms", "shell.execute", "devices.control", "payments.spend", "code.execute",
    "microphone", "camera", "location", "network"]

/-- The two ways to use the storage. -/
inductive Mode where
  | read
  | write
  deriving DecidableEq

/-- What a permission for the storage begins with. -/
def Mode.head : Mode → List Char
  | read => "filesystem.read:".toList
  | write => "filesystem.write:".toList

/-- `.+`. -/
def isLine (s : List Char) : Bool := !s.isEmpty && s.all fun c => !JsText.isLineTerminator c

/-- The scope of a permission for one use. -/
def Mode.scope? (mode : Mode) (permission : List Char) : Option (List Char) :=
  if mode.head.isPrefixOf permission then
    (some (permission.drop mode.head.length)).filter isLine
  else none

/-- `/^filesystem\.(read|write):(.+)$/.exec(permission)`: the two groups. -/
def filesystem? (permission : String) : Option (Mode × List Char) :=
  match Mode.read.scope? permission.toList with
  | some scope => some (.read, scope)
  | none => (Mode.write.scope? permission.toList).map fun scope => (.write, scope)

/-- The permission with a scope. -/
def ofScope (mode : Mode) (scope : List Char) : String := String.ofList (mode.head ++ scope)

/-- `[a-z]`. -/
def isLetter (c : Char) : Bool := 'a' ≤ c && c ≤ 'z'

/-- `[a-z0-9_-]`. -/
def isWordChar (c : Char) : Bool := isLetter c || '0' ≤ c && c ≤ '9' || c == '_' || c == '-'

/-- `[a-z][a-z0-9_-]*`. -/
def isFirst : List Char → Bool
  | [] => false
  | c :: cs => isLetter c && cs.all isWordChar

/-- `[a-z0-9_-]+`. -/
def isWord (w : List Char) : Bool := !w.isEmpty && w.all isWordChar

/-- What may follow the first component of a scope: words, and `*` for the last one. -/
def isRest : List (List Char) → Bool
  | [] => true
  | [last] => isWord last || last == ['*']
  | w :: ws => isWord w && isRest ws

/-- `SCOPE.test(scope)`. -/
def isScope (scope : List Char) : Bool :=
  match scope.splitOn '.' with
  | [] => false
  | first :: rest => isFirst first && isRest rest

def isKnownPermission (permission : String) : Bool :=
  permission ∈ known ||
    match filesystem? permission with
    | some (_, scope) => isScope scope
    | none => false

/-- The end of a scope for all places below one. -/
def wildcard : List Char := ['.', '*']

def covers (held required : String) : Bool :=
  held == required ||
    match filesystem? held, filesystem? required with
    | some (h, hscope), some (r, rscope) =>
      -- what is left of the scope that is held keeps its last dot
      h == r && wildcard.isSuffixOf hscope && hscope.dropLast.isPrefixOf rscope
    | _, _ => false

/-- What `checkPermissions` returns. -/
structure Check where
  allowed : Bool
  required : List String
  missingDeclared : List String
  missingGrant : List String
  deriving DecidableEq

/-- The permissions that are required and not covered. -/
def missing (required held : List String) : List String :=
  required.filter fun permission => !held.any fun h => covers h permission

def checkPermissions (required declared granted : List String) : Check where
  allowed := (missing required declared).isEmpty && (missing required granted).isEmpty
  required := required
  missingDeclared := missing required declared
  missingGrant := missing required granted

example : checkPermissions ["filesystem.read:jobs.a"] ["filesystem.read:jobs.*"]
    ["filesystem.read:job.*"] =
      ⟨false, ["filesystem.read:jobs.a"], [], ["filesystem.read:jobs.a"]⟩ := by decide

variable {mode : Mode} {s scope : List Char}

theorem Mode.scope?_eq_some {permission : List Char} :
    mode.scope? permission = some scope ↔ permission = mode.head ++ scope ∧ isLine scope = true := by
  unfold scope?
  split_ifs with h
  · obtain ⟨rest, rfl⟩ := isPrefixOf_iff_prefix.1 h
    rw [drop_left, Option.filter_eq_some_iff, Option.some.injEq, append_cancel_left_eq]
  · refine ⟨nofun, fun ⟨h', _⟩ => absurd ?_ h⟩
    rw [h']
    exact isPrefixOf_iff_prefix.2 (prefix_append _ _)

theorem Mode.getElem?_head (m : Mode) (s : List Char) :
    (m.head ++ s)[11]? = some (match m with | read => 'r' | write => 'w') := by
  cases m <;> rfl

theorem Mode.head_injective {m m' : Mode} {s' : List Char} (h : m.head ++ s = m'.head ++ s') :
    m = m' ∧ s = s' := by
  have hchar := getElem?_head m s
  rw [h, getElem?_head] at hchar
  have hm : m = m' := by
    cases m <;> cases m' <;> simp_all
  subst hm
  exact ⟨rfl, append_cancel_left h⟩

theorem filesystem?_eq_some {permission : String} :
    filesystem? permission = some (mode, scope) ↔
      permission.toList = mode.head ++ scope ∧ isLine scope = true := by
  rw [← Mode.scope?_eq_some, filesystem?]
  cases hr : Mode.read.scope? permission.toList with
  | some s =>
    constructor
    · rintro ⟨⟩
      exact hr
    · intro h
      obtain ⟨hm, hs⟩ := Mode.head_injective
        ((Mode.scope?_eq_some.1 hr).1.symm.trans (Mode.scope?_eq_some.1 h).1)
      rw [hm, hs]
  | none =>
    cases mode with
    | read => simp [hr]
    | write => simp

theorem filesystem?_ofScope (h : isLine scope = true) :
    filesystem? (ofScope mode scope) = some (mode, scope) :=
  filesystem?_eq_some.2 ⟨String.toList_ofList, h⟩

theorem eq_ofScope {permission : String}
    (h : filesystem? permission = some (mode, scope)) : permission = ofScope mode scope := by
  rw [ofScope, ← (filesystem?_eq_some.1 h).1, String.ofList_toList]

/-- The components of a path are words, and the first one begins with a letter. -/
def isName : List (List Char) → Bool
  | [] => false
  | first :: rest => isFirst first && rest.all isWord

/-- A place of the storage. -/
structure StorageName where
  components : List (List Char)
  wellFormed : isName components = true

/-- What a package does: something that one permission is for, or a use of a place. -/
inductive Act where
  | named (permission : String)
  | storage (mode : Mode) (name : StorageName)

/-- The places of a scope: with a wildcard those whose path extends what comes before it. -/
def places (scope : List Char) : Set StorageName :=
  {name | if wildcard.isSuffixOf scope then
      Extends (scope.dropLast.dropLast.splitOn '.') name.components
    else name.components = scope.splitOn '.'}

/-- What a permission lets one do. -/
def permits (permission : String) : Set Act
  | .named p => filesystem? permission = none ∧ p = permission
  | .storage mode name => ∃ scope, filesystem? permission = some (mode, scope) ∧ name ∈ places scope

theorem mem_places_wildcard {name : StorageName} :
    name ∈ places (s ++ wildcard) ↔ Extends (s.splitOn '.') name.components := by
  simp [places, wildcard]

theorem mem_places_plain {name : StorageName} (h : ¬wildcard <:+ s) :
    name ∈ places s ↔ name.components = s.splitOn '.' := by
  have hend : ¬wildcard.isSuffixOf s = true := fun hs => h (isSuffixOf_iff_suffix.1 hs)
  simp [places, hend]

variable {held p r required : String}

/-- What a permission covers: itself, or what its wildcard is extended by. -/
theorem covers_iff :
    covers held required = true ↔ held = required ∨ ∃ mode s t,
      filesystem? held = some (mode, s ++ wildcard) ∧ filesystem? required = some (mode, t) ∧
        Extends (s.splitOn '.') (t.splitOn '.') := by
  rw [covers, Bool.or_eq_true, beq_iff_eq]
  refine or_congr_right ?_
  constructor
  · intro h
    split at h
    next hm hs rm rs hheld hreq =>
      simp only [Bool.and_eq_true, beq_iff_eq, isSuffixOf_iff_suffix,
        isPrefixOf_iff_prefix] at h
      obtain ⟨⟨rfl, s, rfl⟩, hpre⟩ := h
      refine ⟨hm, s, rs, hheld, hreq, append_sep_prefix_iff.1 ?_⟩
      simpa [wildcard] using hpre
    next => exact absurd h (by simp)
  · rintro ⟨mode, s, t, hheld, hreq, hext⟩
    have hpre := append_sep_prefix_iff.2 hext
    simp only [hheld, hreq, Bool.and_eq_true, beq_iff_eq, isSuffixOf_iff_suffix,
      isPrefixOf_iff_prefix, true_and]
    exact ⟨suffix_append _ _, by simpa [wildcard] using hpre⟩

theorem covers_refl (p : String) : covers p p = true := covers_iff.2 (.inl rfl)

theorem splitOn_wildcard (s : List Char) :
    (s ++ wildcard).splitOn '.' = s.splitOn '.' ++ [['*']] := by
  rw [wildcard, splitOn_append_cons_self]
  rfl

theorem covers_trans {q : String} (hpq : covers p q = true) (hqr : covers q r = true) :
    covers p r = true := by
  obtain rfl | ⟨mode, s, t, hp, hq, hst⟩ := covers_iff.1 hpq
  · exact hqr
  obtain rfl | ⟨mode', t', u, hq', hr, htu⟩ := covers_iff.1 hqr
  · exact hpq
  obtain ⟨rfl, rfl⟩ : mode = mode' ∧ t = t' ++ wildcard := by simpa using hq.symm.trans hq'
  rw [splitOn_wildcard] at hst
  exact covers_iff.2 (.inr ⟨mode, s, u, hp, hr, .of_initial (extends_concat_iff.1 hst) htu⟩)

theorem plain_covers_iff (h : ¬wildcard <:+ s) :
    covers (ofScope mode s) r = true ↔ r = ofScope mode s := by
  rw [covers_iff]
  constructor
  · rintro (rfl | ⟨mode', s', t, hheld, -⟩)
    · rfl
    · have htext := (filesystem?_eq_some.1 hheld).1
      rw [ofScope, String.toList_ofList] at htext
      exact absurd ⟨s', (Mode.head_injective htext).2.symm⟩ h
  · rintro rfl
    exact .inl rfl

/-- A wildcard covers the lines that extend its path. -/
theorem wildcard_covers_iff (h : isLine (s ++ wildcard) = true) :
    covers (ofScope mode (s ++ wildcard)) r = true ↔ ∃ t, isLine t = true ∧ r = ofScope mode t ∧
      Extends (s.splitOn '.') (t.splitOn '.') := by
  have hheld := @filesystem?_ofScope mode _ h
  rw [covers_iff]
  constructor
  · rintro (rfl | ⟨mode', s', t, hs, hr, hext⟩)
    · exact ⟨s ++ wildcard, h, rfl, by rw [splitOn_wildcard]; exact extends_append.2 (by simp)⟩
    · obtain ⟨rfl, rfl⟩ : mode = mode' ∧ s = s' := by simpa using hheld.symm.trans hs
      exact ⟨t, (filesystem?_eq_some.1 hr).2, eq_ofScope hr, hext⟩
  · rintro ⟨t, ht, rfl, hext⟩
    exact .inr ⟨mode, s, t, hheld, filesystem?_ofScope ht, hext⟩

theorem permits_mono (h : covers held required = true) :
    permits required ⊆ permits held := by
  obtain rfl | ⟨mode, s, t, hheld, hreq, hext⟩ := covers_iff.1 h
  · exact subset_rfl
  rintro (p | ⟨mode', name⟩) hact
  · obtain ⟨hnone, rfl⟩ := hact
    rw [hreq] at hnone
    exact absurd hnone nofun
  obtain ⟨t', ht', hname⟩ := hact
  obtain ⟨rfl, rfl⟩ : mode = mode' ∧ t = t' := by simpa using hreq.symm.trans ht'
  refine ⟨s ++ wildcard, hheld, mem_places_wildcard.2 ?_⟩
  by_cases hw : wildcard <:+ t
  · obtain ⟨t', rfl⟩ := hw
    rw [splitOn_wildcard] at hext
    exact .of_initial (extends_concat_iff.1 hext) (mem_places_wildcard.1 hname)
  · rw [(mem_places_plain hw).1 hname]
    exact hext

/-! ### Inclusion of meanings -/

theorem isRest_append_star {init : List (List Char)} (h : isRest (init ++ [['*']]) = true) :
    init.all isWord = true := by
  induction init with
  | nil => rfl
  | cons w ws ih =>
    have hstep : isRest (w :: (ws ++ [['*']])) = (isWord w && isRest (ws ++ [['*']])) := by
      cases ws <;> rfl
    rw [cons_append, hstep, Bool.and_eq_true] at h
    rw [all_cons, h.1, ih h.2, Bool.true_and]

theorem all_isWord_of_isRest {ws : List (List Char)} (h : isRest ws = true)
    (hstar : ws.getLast? ≠ some ['*']) : ws.all isWord = true := by
  induction ws with
  | nil => rfl
  | cons w ws ih =>
    cases ws with
    | nil =>
      have hw : w ≠ ['*'] := by simpa using hstar
      simpa [isRest, hw] using h
    | cons w' ws =>
      rw [isRest, Bool.and_eq_true] at h
      · rw [all_cons, h.1, ih h.2 (by simpa using hstar), Bool.true_and]
      · simp

theorem isName_append_of_wildcard {t : List Char} (h : isScope (t ++ wildcard) = true)
    {more : List (List Char)} (hmore : more.all isWord = true) :
    isName (t.splitOn '.' ++ more) = true := by
  rw [isScope, splitOn_wildcard] at h
  cases hsplit : t.splitOn '.' with
  | nil => exact absurd hsplit (splitOn_ne_nil _ _)
  | cons first init =>
    rw [hsplit] at h
    obtain ⟨hfirst, hrest⟩ := Bool.and_eq_true_iff.1 h
    simp only [cons_append, isName, hfirst, all_append, isRest_append_star hrest, hmore,
      Bool.and_self]

theorem isName_of_plain {t : List Char} (h : isScope t = true) (hplain : ¬wildcard <:+ t) :
    isName (t.splitOn '.') = true := by
  rw [isScope] at h
  have hjoin : ['.'].intercalate (t.splitOn '.') = t := intercalate_splitOn '.'
  cases hsplit : t.splitOn '.' with
  | nil => exact absurd hsplit (splitOn_ne_nil _ _)
  | cons first rest =>
    rw [hsplit] at h hjoin
    obtain ⟨hfirst, hrest⟩ := Bool.and_eq_true_iff.1 h
    rw [isName, hfirst, Bool.true_and]
    refine all_isWord_of_isRest hrest fun hlast => hplain ?_
    obtain ⟨init, rfl⟩ := getLast?_eq_some_iff.1 hlast
    rw [← cons_append, intercalate_append (by simp) (by simp)] at hjoin
    exact ⟨['.'].intercalate (first :: init), by simpa [wildcard] using hjoin⟩

theorem known_ne_ofScope (h : p ∈ known) (mode : Mode) (s : List Char) :
    p ≠ ofScope mode s := by
  rintro rfl
  have hnone : ∀ q ∈ known, ∀ m : Mode, m.head.isPrefixOf q.toList = false := by
    intro q hq m
    revert q
    cases m <;> decide
  have hpre := hnone _ h mode
  rw [ofScope, String.toList_ofList, ← Bool.not_eq_true, isPrefixOf_iff_prefix] at hpre
  exact hpre (prefix_append _ _)

theorem isKnownPermission_cases (h : isKnownPermission p = true) :
    filesystem? p = none ∨ ∃ mode s, filesystem? p = some (mode, s) ∧ isScope s = true := by
  cases hp : filesystem? p with
  | none => exact .inl rfl
  | some scope =>
    obtain ⟨mode, s⟩ := scope
    refine .inr ⟨mode, s, rfl, ?_⟩
    rw [isKnownPermission, hp, Bool.or_eq_true] at h
    exact h.resolve_left fun hmem => known_ne_ofScope (by simpa using hmem) mode s (eq_ofScope hp)

theorem isLine_of_known (h : isKnownPermission (ofScope mode s) = true) : isLine s = true := by
  rw [isKnownPermission, Bool.or_eq_true] at h
  have h := h.resolve_left fun hmem => known_ne_ofScope (by simpa using hmem) mode s rfl
  cases hp : filesystem? (ofScope mode s) with
  | none => rw [hp] at h; exact absurd h (by simp)
  | some scope =>
    obtain ⟨mode', s'⟩ := scope
    obtain ⟨htext, hline⟩ := filesystem?_eq_some.1 hp
    rw [ofScope, String.toList_ofList] at htext
    rwa [(Mode.head_injective htext).2]

/-- A permission covers another just where it permits all that the other does. -/
theorem covers_iff_permits (h : isKnownPermission required = true) :
    covers held required = true ↔ permits required ⊆ permits held := by
  refine ⟨permits_mono, fun hsub => ?_⟩
  obtain hnone | ⟨mode, t, ht, hscope⟩ := isKnownPermission_cases h
  · obtain ⟨-, rfl⟩ : Act.named required ∈ permits held := hsub ⟨hnone, rfl⟩
    exact covers_refl _
  by_cases hw : wildcard <:+ t
  · obtain ⟨t, rfl⟩ := hw
    -- two places of the scope, one below the other: a scope without a wildcard has only one
    have hplace (more : List (List Char)) (hmore : more.all isWord = true) (hne : more ≠ []) :
        ∃ s, filesystem? held = some (mode, s) ∧
          (⟨t.splitOn '.' ++ more, isName_append_of_wildcard hscope hmore⟩ : StorageName) ∈
            places s :=
      hsub (a := .storage mode ⟨_, isName_append_of_wildcard hscope hmore⟩)
        ⟨t ++ wildcard, ht, mem_places_wildcard.2 (extends_append.2 hne)⟩
    obtain ⟨s, hs, hone⟩ := hplace [['a']] rfl (by simp)
    obtain ⟨s', hs', htwo⟩ := hplace [['a'], ['a']] rfl (by simp)
    obtain rfl : s = s' := by simpa using hs.symm.trans hs'
    by_cases hsw : wildcard <:+ s
    · obtain ⟨s, rfl⟩ := hsw
      have hpre := extends_concat_iff.1 (mem_places_wildcard.1 hone)
      refine covers_iff.2 (.inr ⟨mode, s, _, hs, ht, ?_⟩)
      rw [splitOn_wildcard]
      exact extends_concat_iff.2 hpre
    · have heq := ((mem_places_plain hsw).1 hone).trans ((mem_places_plain hsw).1 htwo).symm
      simp at heq
  · obtain ⟨s, hs, hmem⟩ : Act.storage mode ⟨_, isName_of_plain hscope hw⟩ ∈ permits held :=
      hsub ⟨t, ht, (mem_places_plain hw).2 rfl⟩
    by_cases hsw : wildcard <:+ s
    · obtain ⟨s, rfl⟩ := hsw
      exact covers_iff.2 (.inr ⟨mode, s, t, hs, ht, mem_places_wildcard.1 hmem⟩)
    · have heq : t = s := splitOn_injective '.' ((mem_places_plain hsw).1 hmem)
      rw [eq_ofScope hs, eq_ofScope ht, heq]
      exact covers_refl _

theorem missing_eq_nil {required held : List String} :
    missing required held = [] ↔ ∀ r ∈ required, ∃ h ∈ held, covers h r = true := by
  simp [missing]

theorem checkPermissions_allowed {required declared granted : List String} :
    (checkPermissions required declared granted).allowed = true ↔
      ∀ r ∈ required, (∃ d ∈ declared, covers d r = true) ∧ ∃ g ∈ granted, covers g r = true := by
  simp only [checkPermissions, Bool.and_eq_true, List.isEmpty_iff, missing_eq_nil]
  exact forall₂_and.symm

/-- Everything in one list is covered by the other one. -/
def CoveredBy (held more : List String) : Prop := ∀ h ∈ held, ∃ m ∈ more, covers m h = true

theorem CoveredBy.exists_covers {held more : List String} (h : CoveredBy held more) {r : String}
    (hr : ∃ p ∈ held, covers p r = true) : ∃ p ∈ more, covers p r = true := by
  obtain ⟨p, hp, hc⟩ := hr
  obtain ⟨m, hm, hc'⟩ := h p hp
  exact ⟨m, hm, covers_trans hc' hc⟩

theorem CoveredBy.missing_subset {held more : List String} (h : CoveredBy held more)
    (required : List String) : missing required more ⊆ missing required held := by
  intro r
  simp only [missing, mem_filter, Bool.not_eq_true', any_eq_false]
  rintro ⟨hr, hnone⟩
  refine ⟨hr, fun p hp hc => ?_⟩
  obtain ⟨m, hm, hc'⟩ := h.exists_covers ⟨p, hp, hc⟩
  exact hnone m hm hc'

/-- Coverage is an order that is inclusion of meanings, a check is monotone for it, and what is
allowed is permitted by something declared and by something granted. -/
theorem permissions_sound :
    (∀ p, isKnownPermission p = true → covers p p = true) ∧
    (∀ p q r, isKnownPermission p = true → isKnownPermission q = true →
      isKnownPermission r = true → covers p q = true → covers q r = true → covers p r = true) ∧
    (∀ mode s r, isKnownPermission (ofScope mode (s ++ wildcard)) = true →
      isKnownPermission r = true → (covers (ofScope mode (s ++ wildcard)) r = true ↔
        ∃ t, r = ofScope mode t ∧ Extends (s.splitOn '.') (t.splitOn '.'))) ∧
    (∀ mode s r, isKnownPermission (ofScope mode s) = true → isKnownPermission r = true →
      ¬wildcard <:+ s → (covers (ofScope mode s) r = true ↔ r = ofScope mode s)) ∧
    (∀ held required, isKnownPermission held = true → isKnownPermission required = true →
      (covers held required = true ↔ permits required ⊆ permits held)) ∧
    (∀ required declared granted declared' granted', CoveredBy declared declared' →
      CoveredBy granted granted' →
      (checkPermissions required declared' granted').missingDeclared ⊆
          (checkPermissions required declared granted).missingDeclared ∧
        (checkPermissions required declared' granted').missingGrant ⊆
          (checkPermissions required declared granted).missingGrant ∧
        ((checkPermissions required declared granted).allowed = true →
          (checkPermissions required declared' granted').allowed = true)) ∧
    (∀ required declared granted, (checkPermissions required declared granted).allowed = true →
      ∀ r ∈ required, ∀ act ∈ permits r,
        (∃ d ∈ declared, act ∈ permits d) ∧ ∃ g ∈ granted, act ∈ permits g) := by
  refine ⟨fun p _ => covers_refl p, fun p q r _ _ _ => covers_trans, ?_, ?_,
    fun held required _ h => covers_iff_permits h, ?_, ?_⟩
  · intro mode s r hs hr
    rw [wildcard_covers_iff (isLine_of_known hs)]
    constructor
    · rintro ⟨t, -, rfl, hext⟩
      exact ⟨t, rfl, hext⟩
    · rintro ⟨t, rfl, hext⟩
      exact ⟨t, isLine_of_known hr, rfl, hext⟩
  · exact fun mode s r _ _ h => plain_covers_iff h
  · intro required declared granted declared' granted' hd hg
    refine ⟨hd.missing_subset required, hg.missing_subset required, fun h => ?_⟩
    rw [checkPermissions_allowed] at h ⊢
    exact fun r hr => ⟨hd.exists_covers (h r hr).1, hg.exists_covers (h r hr).2⟩
  · intro required declared granted h r hr act hact
    obtain ⟨⟨d, hd, hdr⟩, g, hg, hgr⟩ := checkPermissions_allowed.1 h r hr
    exact ⟨⟨d, hd, permits_mono hdr hact⟩, g, hg, permits_mono hgr hact⟩

end U2os.Server.Packages.Permissions
