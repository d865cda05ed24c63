import U2os.Server.Packages.Semver

/-!
# Ranges and the lines of versions

A caret or a tilde range, and a version with numbers left out, stand for a line of versions: those
with the same major number, or the same major and minor numbers.  `parseRange` ends a line before
the release that follows it, and in the order of `compareVersions` the prereleases of that release
come before it too.

## Main results

* `compareVersions_eq_lt` : `compareVersions` is this order.
-/

namespace U2os.Server.Packages

open JsText JsNumber List Option Partial

/-- A prerelease tag comes before another one, or before none. -/
def PreBefore : Option String → Option String → Prop
  | none, _ => False
  | some _, none => True
  | some l, some r => l ≠ r ∧ l < r

namespace Version

/-- The order of versions. -/
def Before (v w : Version) : Prop :=
  v.major < w.major ∨ v.major = w.major ∧ (v.minor < w.minor ∨ v.minor = w.minor ∧
    (v.patch < w.patch ∨ v.patch = w.patch ∧ PreBefore v.pre w.pre))

/-- The version is a prerelease of the one with these numbers. -/
structure IsPrereleaseOf (v : Version) (major minor patch : WithTop ℕ) : Prop where
  major : v.major = major
  minor : v.minor = minor
  patch : v.patch = patch
  pre : v.pre ≠ none

end Version

variable {v w base : Version} {p : Partial} {major minor patch : WithTop ℕ}

/-- The order of versions is that of their numbers and their labels. -/
theorem compareVersions_eq_lt : compareVersions v w = .lt ↔ v.Before w := by
  rw [compareVersions, Version.Before]
  by_cases hmajor : v.major = w.major
  · by_cases hminor : v.minor = w.minor
    · by_cases hpatch : v.patch = w.patch
      · simp only [hmajor, hminor, hpatch, ne_eq, not_true_eq_false, if_false, lt_irrefl, true_and,
          false_or]
        cases v.pre with
        | none => cases w.pre <;> simp [PreBefore]
        | some l =>
          cases w.pre with
          | none => simp [PreBefore]
          | some r =>
            dsimp only [PreBefore]
            split_ifs <;> simp_all
      · simp [hmajor, hminor, hpatch]
    · simp [hmajor, hminor]
  · simp [hmajor]

theorem compareVersions_eq_eq (h : compareVersions v w = .eq) :
    v.major = w.major ∧ v.minor = w.minor := by
  rw [compareVersions] at h
  split_ifs at h with hmajor _ hminor
  exact ⟨not_not.1 hmajor, not_not.1 hminor⟩

theorem all_upTo : ((base.upTo major minor patch).all fun c => c.holds v) = true ↔
    ¬ v.Before base ∧ v.Before ⟨major, minor, patch, none⟩ := by
  simp [Version.upTo, Comparator.holds, compareVersions_eq_lt]

theorem preBefore_none {pre : Option String} : PreBefore pre none ↔ pre ≠ none := by
  cases pre <;> simp [PreBefore]

theorem isPrereleaseOf_iff {patch : WithTop ℕ} : v.IsPrereleaseOf major minor patch ↔
    v.major = major ∧ v.minor = minor ∧ v.patch = patch ∧ v.pre ≠ none :=
  ⟨fun ⟨h₁, h₂, h₃, h₄⟩ => ⟨h₁, h₂, h₃, h₄⟩, fun ⟨h₁, h₂, h₃, h₄⟩ => ⟨h₁, h₂, h₃, h₄⟩⟩

theorem before_major : v.Before ⟨major, 0, 0, none⟩ ↔
    v.major < major ∨ v.IsPrereleaseOf major 0 0 := by
  simp only [Version.Before, not_lt_zero, false_or, preBefore_none, isPrereleaseOf_iff]

theorem before_minor : v.Before ⟨major, minor, 0, none⟩ ↔
    v.major < major ∨ v.major = major ∧ v.minor < minor ∨ v.IsPrereleaseOf major minor 0 := by
  simp only [Version.Before, not_lt_zero, false_or, preBefore_none, isPrereleaseOf_iff, and_or_left]

theorem le_of_not_before (h : ¬ v.Before base) :
    base.major ≤ v.major ∧ (v.major = base.major → base.minor ≤ v.minor) := by
  refine ⟨not_lt.1 fun hlt => h (.inl hlt), fun heq => not_lt.1 fun hlt => ?_⟩
  exact h (.inr ⟨heq, .inl hlt⟩)

/-- The text is a partial version, with nothing around it. -/
def IsPartial (text : String) (p : Partial) : Prop :=
  parsePartial text.toList = some p ∧ ∀ c ∈ text.toList, isSpace c = false

variable {cs : List Char}

theorem noSpace_of_all (h : (cs.all fun c => !isSpace c) = true) :
    ∀ c ∈ cs, isSpace c = false := by
  simpa using h

theorem trimChars_of_no_space (h : ∀ c ∈ cs, isSpace c = false) :
    trimChars cs = cs := by
  have hdrop : ∀ l : List Char, (∀ c ∈ l, isSpace c = false) → l.dropWhile isSpace = l := by
    intro l hl
    cases l with
    | nil => rfl
    | cons c l => rw [dropWhile_cons, hl c mem_cons_self]; rfl
  rw [trimChars, hdrop cs h, hdrop _ fun c hc => h c (mem_reverse.1 hc), reverse_reverse]

theorem parseRange_word {range : String} (hspace : ∀ c ∈ range.toList, isSpace c = false)
    (hany : range.toList ∉ [[], ['*'], ['x'], "latest".toList])
    (hp : parsePartial (lead range.toList).2 = some p) :
    parseRange range = some (p.comparators (lead range.toList).1) := by
  have hne : range.toList ≠ [] := fun h => hany (by rw [h]; exact mem_cons_self)
  have hwords : words range.toList = [range.toList] := by
    rw [words, splitOnP_eq_singleton hspace]
    simp [hne]
  rw [parseRange, trimChars_of_no_space hspace, if_neg hany, hwords]
  simp [hp]

theorem exists_digit {text : String} (h : IsPartial text p) :
    ∃ c cs, text.toList = c :: cs ∧ isDigit c = true := by
  obtain ⟨hp, hspace⟩ := h
  rw [parsePartial, trimChars_of_no_space hspace] at hp
  obtain ⟨⟨n, rest⟩, hn, -⟩ := bind_eq_some_iff.1 hp
  rw [number] at hn
  split_ifs at hn with hd
  cases htext : text.toList with
  | nil => exact absurd (by rw [htext]; rfl) hd
  | cons c cs =>
    refine ⟨c, cs, rfl, ?_⟩
    by_contra hc
    rw [htext, takeWhile_cons, if_neg hc] at hd
    exact hd rfl

theorem lead_of_digit {c : Char} (h : isDigit c = true) :
    lead (c :: cs) = (.op .eq, c :: cs) := by
  rw [lead.eq_def]
  split <;> first | rfl | (simp_all [isDigit, Char.isDigit])

variable {text version range : String}

theorem parseRange_lead {sign : String} {l : Lead} (h : IsPartial text p)
    (hspace : ∀ c ∈ sign.toList, isSpace c = false)
    (hlead : lead (sign.toList ++ text.toList) = (l, text.toList))
    (hany : sign.toList ++ text.toList ∉ [[], ['*'], ['x'], "latest".toList]) :
    parseRange (sign ++ text) = some (p.comparators l) := by
  have hlist : (sign ++ text).toList = sign.toList ++ text.toList := String.toList_append
  have hword := @parseRange_word p (sign ++ text)
  rw [hlist, hlead] at hword
  refine hword (fun c hc => ?_) hany h.1
  exact (mem_append.1 hc).elim (hspace c) (h.2 c)

theorem parseRange_caret (h : IsPartial text p) :
    parseRange ("^" ++ text) = some (p.comparators .caret) :=
  parseRange_lead h (noSpace_of_all rfl) rfl (by simp)

theorem parseRange_tilde (h : IsPartial text p) :
    parseRange ("~" ++ text) = some (p.comparators .tilde) :=
  parseRange_lead h (noSpace_of_all rfl) rfl (by simp)

/-- A bare version is a range of that version. -/
theorem parseRange_bare (h : IsPartial text p) :
    parseRange text = some (p.comparators (.op .eq)) := by
  obtain ⟨c, cs, htext, hc⟩ := exists_digit h
  have hlead : lead text.toList = (.op .eq, text.toList) := by rw [htext, lead_of_digit hc]
  have hword := @parseRange_word p text h.2
  rw [hlead] at hword
  refine hword (fun hmem => ?_) h.1
  rw [htext] at hmem
  simp only [mem_cons, cons.injEq, not_mem_nil, or_false, reduceCtorEq,
    false_or] at hmem
  obtain ⟨rfl, -⟩ | ⟨rfl, -⟩ | hlatest := hmem
  · exact absurd hc (by decide)
  · exact absurd hc (by decide)
  · obtain rfl : c = 'l' := (cons.inj hlatest).1
    exact absurd hc (by decide)

/-- A version satisfies a range if all comparators hold. -/
theorem satisfies_iff {comparators : List Comparator} (hv : parseVersion version = some v)
    (hr : parseRange range = some comparators) :
    satisfies version range = true ↔ (comparators.all fun c => c.holds v) = true := by
  rw [satisfies, hv, hr]

theorem isNumber_number {rest : List Char} {n : WithTop ℕ} (h : number cs = some (n, rest)) :
    IsNumber n := by
  rw [number] at h
  split_ifs at h
  cases h
  exact isNumber_ofDigits _

theorem isNumber_dotNumber {rest : List Char} {n : WithTop ℕ}
    (h : dotNumber cs = some (n, rest)) : IsNumber n := by
  rw [dotNumber.eq_def] at h
  split at h
  · exact isNumber_number h
  · cases h

theorem isNumber_of_parseVersion (h : parseVersion version = some v) :
    IsNumber v.major ∧ IsNumber v.minor := by
  obtain ⟨⟨major, cs⟩, hmajor, h⟩ := bind_eq_some_iff.1 h
  obtain ⟨⟨minor, cs'⟩, hminor, h⟩ := bind_eq_some_iff.1 h
  obtain ⟨⟨patch, cs''⟩, _, h⟩ := bind_eq_some_iff.1 h
  obtain ⟨pre, _, h⟩ := bind_eq_some_iff.1 h
  cases h
  exact ⟨isNumber_number hmajor, isNumber_dotNumber hminor⟩

/-- The parts of a version are numbers that are kept. -/
theorem isNumber_of_parsePartial (h : parsePartial cs = some p) :
    IsNumber p.major ∧ ∀ m, p.minor = some m → IsNumber m := by
  obtain ⟨⟨major, cs'⟩, hmajor, h⟩ := bind_eq_some_iff.1 h
  dsimp only at h
  split at h
  · obtain ⟨pre, _, h⟩ := bind_eq_some_iff.1 h
    cases h
    exact ⟨isNumber_number hmajor, nofun⟩
  · rename_i minor cs'' hminor
    have hm : ∀ m, some minor = some m → IsNumber m := by
      rintro _ ⟨⟩
      exact isNumber_dotNumber hminor
    split at h
    · obtain ⟨pre, _, h⟩ := bind_eq_some_iff.1 h
      cases h
      exact ⟨isNumber_number hmajor, hm⟩
    · obtain ⟨pre, _, h⟩ := bind_eq_some_iff.1 h
      cases h
      exact ⟨isNumber_number hmajor, hm⟩

/-- The ranges of a partial version keep to its line, at one version. -/
structure KeepsLine (version text : String) (v : Version) (p : Partial) : Prop where
  /-- `^M.m.p`, with `0 < M`. -/
  caret : 0 < p.major → satisfies version ("^" ++ text) = true → v.major = p.major
  /-- `~M.m`, and `M.m`. -/
  minor : ∀ m, p.minor = some m →
    satisfies version ("~" ++ text) = true ∨ satisfies version text = true →
      v.major = p.major ∧ v.minor = m
  /-- `^0.m.p`, with `0 < m`. -/
  zero : ∀ m, p.major = 0 → p.minor = some m → 0 < m →
    satisfies version ("^" ++ text) = true → v.major = 0 ∧ v.minor = m

/-- The version is a prerelease of the first release after a line of the partial version; where
adding one changes the number, as it does below `2 ^ 53`. -/
def RightAfter (v : Version) (p : Partial) : Prop :=
  0 < p.major ∧ succ p.major ≠ p.major ∧ v.IsPrereleaseOf (succ p.major) 0 0 ∨
    ∃ m, p.minor = some m ∧ succ m ≠ m ∧ v.IsPrereleaseOf p.major (succ m) 0

variable {m : WithTop ℕ}

theorem all_line (hm : p.minor = some m) :
    (p.line.all fun c => c.holds v) = true ↔
      ¬ v.Before p.base ∧ v.Before ⟨p.major, succ m, 0, none⟩ := by
  rw [line, if_neg (by rw [hm]; nofun), all_upTo]
  simp [base, hm]

theorem all_caret_major (hp : 0 < p.major) :
    ((p.comparators .caret).all fun c => c.holds v) = true ↔
      ¬ v.Before p.base ∧ v.Before ⟨succ p.major, 0, 0, none⟩ := by
  rw [comparators, if_pos (.inl hp), all_upTo]
  rfl

theorem all_caret_minor (hp : p.major = 0) (hm : p.minor = some m) (h0 : 0 < m) :
    ((p.comparators .caret).all fun c => c.holds v) = true ↔
      ¬ v.Before p.base ∧ v.Before ⟨p.major, succ m, 0, none⟩ := by
  have hbase : 0 < p.base.minor := by simpa [base, hm] using h0
  have hmajor : ¬(0 < p.base.major ∨ p.minor = none) := by simp [base, hp, hm]
  rw [comparators, if_neg hmajor, if_pos (.inl hbase), all_upTo, hp]
  simp [base, hm]

theorem minor_of_line (hm : p.minor = some m) (hv : IsNumber v.minor)
    (hafter : ¬ RightAfter v p)
    (h : ¬ v.Before p.base ∧ v.Before ⟨p.major, succ m, 0, none⟩) :
    v.major = p.major ∧ v.minor = m := by
  obtain ⟨hmajor, hminor⟩ := le_of_not_before h.1
  have hbase : p.base.minor = m := by simp [base, hm]
  rcases before_minor.1 h.2 with hlt | ⟨heq, hlt⟩ | hpre
  · exact absurd hlt (not_lt.2 hmajor)
  · refine ⟨heq, le_antisymm (not_lt.1 fun hgt => ?_) (hbase ▸ hminor heq)⟩
    exact absurd hlt (not_lt.2 (hv.succ_le_of_lt hgt))
  · refine ⟨hpre.major, hpre.minor.trans ?_⟩
    by_contra hne
    exact hafter (.inr ⟨m, hm, hne, hpre⟩)

theorem line_of_prerelease (hm : p.minor = some m) (hn : IsNumber m)
    (hne : succ m ≠ m) (hpre : v.IsPrereleaseOf p.major (succ m) 0) :
    ¬ v.Before p.base ∧ v.Before ⟨p.major, succ m, 0, none⟩ := by
  have hlt : m < v.minor := hpre.minor ▸ lt_of_le_of_ne hn.le_succ hne.symm
  have hbase : p.base.minor = m := by simp [base, hm]
  refine ⟨?_, before_minor.2 (.inr (.inr hpre))⟩
  rintro (h | ⟨_, h | ⟨h, _⟩⟩)
  · exact absurd h (not_lt.2 hpre.major.ge)
  · exact absurd (hbase ▸ h) (not_lt.2 hlt.le)
  · exact absurd (h.trans hbase) hlt.ne'

/-- Ranges keep to their line, at every version but the prereleases right after it. -/
theorem keepsLine_iff (hv : parseVersion version = some v) (hp : IsPartial text p) :
    KeepsLine version text v p ↔ ¬ RightAfter v p := by
  obtain ⟨hmajor, hminor⟩ := isNumber_of_parseVersion hv
  obtain ⟨hpmajor, hpminor⟩ := isNumber_of_parsePartial hp.1
  constructor
  · rintro hk (⟨h0, hne, hpre⟩ | ⟨m, hm, hne, hpre⟩)
    · have hlt : p.major < v.major := hpre.major ▸ lt_of_le_of_ne hpmajor.le_succ hne.symm
      refine hlt.ne' (hk.caret h0 ((satisfies_iff hv (parseRange_caret hp)).2 ?_))
      rw [all_caret_major h0, before_major]
      refine ⟨?_, .inr hpre⟩
      rintro (h | ⟨h, _⟩)
      · exact absurd h (not_lt.2 hlt.le)
      · exact absurd h hlt.ne'
    · have hline := (all_line hm).2 (line_of_prerelease hm (hpminor m hm) hne hpre)
      have hsat := (satisfies_iff hv (parseRange_tilde hp)).2 hline
      exact hne (hpre.minor.symm.trans (hk.minor m hm (.inl hsat)).2)
  · intro hafter
    refine ⟨fun h0 hsat => ?_, fun m hm hsat => ?_, fun m h0 hm hpos hsat => ?_⟩
    · have hall := (satisfies_iff hv (parseRange_caret hp)).1 hsat
      obtain ⟨hge, hlt⟩ := (all_caret_major h0).1 hall
      rcases before_major.1 hlt with hlt | hpre
      · refine le_antisymm (not_lt.1 fun hgt => ?_) (le_of_not_before hge).1
        exact absurd hlt (not_lt.2 (hmajor.succ_le_of_lt hgt))
      · refine hpre.major.trans ?_
        by_contra hne
        exact hafter (.inl ⟨h0, hne, hpre⟩)
    · rcases hsat with hsat | hsat
      · have hall := (satisfies_iff hv (parseRange_tilde hp)).1 hsat
        exact minor_of_line hm hminor hafter ((all_line hm).1 hall)
      · have hall := (satisfies_iff hv (parseRange_bare hp)).1 hsat
        by_cases hpatch : p.patch = none
        · rw [comparators, if_pos ⟨rfl, .inr hpatch⟩] at hall
          exact minor_of_line hm hminor hafter ((all_line hm).1 hall)
        · -- With all three numbers the version is the one that is named.
          rw [comparators, if_neg (by simp [hm, hpatch])] at hall
          have heq := compareVersions_eq_eq (by simpa [Comparator.holds] using hall)
          exact ⟨heq.1, heq.2.trans (by simp [base, hm])⟩
    · have hall := (satisfies_iff hv (parseRange_caret hp)).1 hsat
      have := minor_of_line hm hminor hafter ((all_caret_minor h0 hm hpos).1 hall)
      exact ⟨this.1.trans h0, this.2⟩

theorem isPartial_sample : IsPartial "1.2" ⟨1, some 2, none, none⟩ :=
  ⟨by decide +kernel, noSpace_of_all rfl⟩

theorem sample_keepsLine : KeepsLine "1.4.2" "1.2" ⟨1, 4, 2, none⟩ ⟨1, some 2, none, none⟩ := by
  have hv : parseVersion "1.4.2" = some ⟨1, 4, 2, none⟩ := by decide +kernel
  refine (keepsLine_iff hv isPartial_sample).2 ?_
  rintro (⟨_, _, h⟩ | ⟨_, _, _, h⟩)
  · exact h.pre rfl
  · exact h.pre rfl

/-- `2.0.0-rc.1` is in the range `^1.2`. -/
theorem prerelease_leaves_line : ¬ ∀ version text v p, parseVersion version = some v →
    IsPartial text p → KeepsLine version text v p := by
  intro h
  have hv : parseVersion "2.0.0-rc.1" = some ⟨2, 0, 0, some "rc.1"⟩ := by decide +kernel
  have hsat : satisfies "2.0.0-rc.1" ("^" ++ "1.2") = true := by decide +kernel
  have hmajor := (h _ _ _ _ hv isPartial_sample).caret (by decide) hsat
  exact absurd hmajor (by decide)

end U2os.Server.Packages
