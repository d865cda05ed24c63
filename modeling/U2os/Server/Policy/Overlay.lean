import U2os.Lib.Fallible
import U2os.Lib.SameData
import U2os.Server.Policy.PolicyEngine

/-!
# The overlay of the vault policy

What `loadPolicies` leaves under a domain, whatever the order of the domains in the vault file, and
how a decision depends on the table: through the rule of one operation, and only through what this
rule says, not through the order of its sub-categories.

## Main results

* `overlay_get` : what the table has under a domain.
-/

namespace U2os.Server.Policy

open Yaml

open Fallible (bind_eq_ok forIn_eq_ok)
open Yaml (lookup spread)

variable {L : Library grants} {tool : Tool} {context : EvalContext}

/-- The entry that the rule of an operation gives. -/
def ruleEntry (L : Library grants) (rule : JsValue) (context : EvalContext) : TableEntry :=
  match rule with
  | .undefined => .missing
  | .data (.str s) => .key "" (.str s)
  | _ =>
    if rule.isObject then
      match context.subCategory with
      | none => .fallback
      | some sub =>
        match defined? (rule.get L sub), defined? (rule.get L "default") with
        | some value, _ => .key ("." ++ sub) value
        | none, some value => .key ".default" value
        | none, none => .fallback
    else .fallback

/-- The decision that the rule of an operation gives. -/
def decideRule (L : Library grants) (vaultInvalid : Bool) (tool : Tool) (rule : JsValue)
    (context : EvalContext) : Except String Evaluation :=
  match ruleEntry L rule context with
  | .missing => .ok (missingEvaluation tool)
  | .fallback =>
    .ok (ruleEvaluation L vaultInvalid tool (.str "confirm") (tool.path ++ ":fallback-confirm"))
  | .key place value =>
    match value.text with
    | some t => .ok (ruleEvaluation L vaultInvalid tool value (tool.path ++ place ++ ":" ++ t))
    | none => .error "Cannot convert object to primitive value"

/-- `policies?.[domain]?.[operation]`. -/
def Policies.rule (L : Library grants) (policies : Policies) (domain operation : String) :
    JsValue := (policies.get L domain).get L operation

/-- The decision of the loaded policies. -/
theorem Policies.evaluate_eq (policies : Policies) (hread : tool.isRead = false) :
    policies.evaluate L tool context =
      decideRule L policies.vaultInvalid tool (policies.rule L tool.domain tool.operation)
        context := by
  have hentry : tableEntry L policies tool context =
      ruleEntry L (policies.rule L tool.domain tool.operation) context := rfl
  rw [Policies.evaluate, if_neg (by simp [hread]), resolveRule, hentry, decideRule]
  cases ruleEntry L (policies.rule L tool.domain tool.operation) context with
  | missing => rfl
  | fallback => rfl
  | key place value =>
    dsimp only
    cases value.text <;> rfl

theorem Policies.evaluate_read (policies : Policies) (hread : tool.isRead = true) :
    policies.evaluate L tool context = .ok (readEvaluation tool) := by
  rw [Policies.evaluate, if_pos hread]

/-- The same, but for the order of keys. -/
inductive TableEntry.Same : TableEntry → TableEntry → Prop
  | refl (e : TableEntry) : Same e e
  | key (place : String) {v w : JsValue} (h : v.Same w) : Same (.key place v) (.key place w)

theorem ruleEntry_object {rule : JsValue} (h : rule.isObject = true) :
    ruleEntry L rule context =
      match context.subCategory with
      | none => .fallback
      | some sub =>
        match defined? (rule.get L sub), defined? (rule.get L "default") with
        | some value, _ => .key ("." ++ sub) value
        | none, some value => .key ".default" value
        | none, none => .fallback := by
  unfold ruleEntry
  split
  · cases h
  · cases h
  · rw [if_pos h]

theorem defined?_same {x y : JsValue} (h : x.Same y) :
    Option.Rel JsValue.Same (defined? x) (defined? y) := by
  cases h with
  | refl x =>
    cases defined? x with
    | none => exact .none
    | some x => exact .some (.refl x)
  | data h => exact .some (.data h)

theorem ruleEntry_object_same {rule rule' : JsValue} (hobj : rule.isObject = true)
    (hobj' : rule'.isObject = true)
    (hget : ∀ sub, context.subCategory = some sub →
      (rule.get L sub).Same (rule'.get L sub) ∧ (rule.get L "default").Same (rule'.get L "default")) :
    (ruleEntry L rule context).Same (ruleEntry L rule' context) := by
  rw [ruleEntry_object hobj, ruleEntry_object hobj']
  cases hcontext : context.subCategory with
  | none => exact .refl _
  | some sub =>
    dsimp only
    obtain ⟨hsub, hdefault⟩ := hget sub hcontext
    replace hsub := defined?_same hsub
    replace hdefault := defined?_same hdefault
    generalize defined? (rule.get L sub) = v at hsub ⊢
    generalize defined? (rule'.get L sub) = v' at hsub ⊢
    generalize defined? (rule.get L "default") = w at hdefault ⊢
    generalize defined? (rule'.get L "default") = w' at hdefault ⊢
    cases hsub with
    | some hsame => exact .key _ hsame
    | none =>
      cases hdefault with
      | some hsame => exact .key _ hsame
      | none => exact .refl _

theorem ruleEntry_same (hL : L.Uniform) {rule rule' : JsValue} (h : rule.Same rule')
    (context : EvalContext) : (ruleEntry L rule context).Same (ruleEntry L rule' context) := by
  by_cases hobj : rule.isObject = true
  · exact ruleEntry_object_same hobj (h.isObject_eq ▸ hobj) fun sub _ =>
      ⟨h.get hL sub, h.get hL "default"⟩
  · cases h with
    | refl _ => exact .refl _
    | data h =>
      cases h with
      | refl _ => exact .refl _
      | map _ _ => exact absurd rfl hobj

theorem ruleEvaluation_same {v w : JsValue} (h : v.Same w) (vaultInvalid : Bool) (rule : String) :
    ruleEvaluation L vaultInvalid tool v rule = ruleEvaluation L vaultInvalid tool w rule := by
  cases h with
  | refl _ => rfl
  | data h =>
    have htext := h.text_eq
    cases h with
    | refl _ => rfl
    | map keys values =>
      have hguard : ∀ es, guardInvalid vaultInvalid (.data (.map es)) rule =
          (.data (.map es), rule) := fun es => if_neg (by simp [isGrant])
      simp only [ruleEvaluation, hguard, JsValue.text, htext, isNever, describeReason]

theorem decideRule_of_entry {rule rule' : JsValue} (vaultInvalid : Bool)
    (hentry : (ruleEntry L rule context).Same (ruleEntry L rule' context)) :
    decideRule L vaultInvalid tool rule context = decideRule L vaultInvalid tool rule' context := by
  rw [decideRule, decideRule]
  generalize ruleEntry L rule context = e at hentry ⊢
  generalize ruleEntry L rule' context = e' at hentry ⊢
  cases hentry with
  | refl _ => rfl
  | key place hvalue =>
    simp only [hvalue.text_eq]
    split
    · rw [ruleEvaluation_same hvalue]
    · rfl

theorem decideRule_same (hL : L.Uniform) {rule rule' : JsValue} (h : rule.Same rule')
    (vaultInvalid : Bool) :
    decideRule L vaultInvalid tool rule context = decideRule L vaultInvalid tool rule' context :=
  decideRule_of_entry vaultInvalid (ruleEntry_same hL h context)

/-- Valid policies are mappings of mappings with known levels. -/
theorem validatePolicies_ok {policies : Yaml} (h : validatePolicies policies = .ok ()) :
    policies.isMapping = true ∧ ∀ p ∈ policies.entries, p.2.isMapping = true ∧
      ∀ q ∈ p.2.entries, (ruleLevels q.2).all isLevel = true := by
  unfold validatePolicies at h
  split_ifs at h with hmap
  · refine ⟨hmap, fun (domain, operations) hp => ?_⟩
    obtain ⟨_, hdomains, -⟩ := bind_eq_ok.1 h
    have hround := forIn_eq_ok (fun (_, operations) => ?_) hdomains _ hp
    · dsimp only
      split_ifs
      · intro hdone
        obtain ⟨_, -, hdone⟩ := bind_eq_ok.1 hdone
        cases hdone
      · exact fun hdone => nomatch hdone
    · dsimp only at hround
      split_ifs at hround with hops
      · refine ⟨hops, fun (operation, rule) hq => ?_⟩
        obtain ⟨_, hrules, -⟩ := bind_eq_ok.1 hround
        have hrule := forIn_eq_ok (fun (_, rule) => ?_) hrules _ hq
        · dsimp only
          split_ifs <;> exact fun hdone => nomatch hdone
        · dsimp only at hrule
          split_ifs at hrule with hlevels
          · exact hlevels
          · cases hrule
      · cases hround
  · cases h

/-- The operations of a valid domain have different names. -/
theorem nodup_operations {v : Yaml} (hd : v.Distinct) (hmap : v.isMapping = true)
    (hv : ∀ q ∈ v.entries, (ruleLevels q.2).all isLevel = true) :
    (v.entries.map Prod.fst).Nodup := by
  cases v with
  | map es => exact hd.nodup
  | date t => exact List.nodup_nil
  | bytes bs =>
    cases bs with
    | nil => exact List.nodup_nil
    | cons b bs =>
      -- a number is no level
      have hlevel := hv (toString 0, .num (toString b)) (by simp [entries])
      cases hlevel
  | null => cases hmap
  | bool b => cases hmap
  | num t => cases hmap
  | str s => cases hmap
  | seq items => cases hmap

/-- The home policy; an empty file is none. -/
def homeTable (home : Yaml) : Yaml := if home.truthy then home else .map []

/-- What the home policy has for a domain. -/
def homeDomain (home : Yaml) (domain : String) : List (String × Yaml) :=
  (lookup (homeTable home).entries domain).elim [] fun v => if v.isMapping then v.entries else []

/-- What the overlay starts from: a copy of the home policy. -/
def homeCopy (home : Yaml) : Policies := { value := .map (homeTable home).entries }

/-- The table of a vault file with these domains. -/
def overlay (home : Yaml) (vault : List (String × Yaml)) : Policies :=
  vault.foldl (fun merged p => overlayDomain (homeTable home) merged p.1 p.2) (homeCopy home)

/-- A domain as the overlay leaves it. -/
def overlaid (home : Yaml) (domain : String) (operations : Yaml) : Yaml :=
  .map (spread (homeDomain home domain) operations.entries)

theorem loadPolicies_content {home : Yaml} {vault : List (String × Yaml)}
    (h : validatePolicies (.map vault) = .ok ()) :
    loadPolicies home (.content (.map vault)) = overlay home vault := by
  simp only [loadPolicies, h]
  rfl

/-- An assignment to the domain would install a prototype instead of an entry. -/
def Installs (table : Policies) (domain : String) : Prop :=
  domain = "__proto__" ∧ lookup table.value.entries domain = none

instance (table : Policies) (domain : String) : Decidable (Installs table domain) :=
  inferInstanceAs (Decidable (_ ∧ _))

variable {home : Yaml} {vault vault' : List (String × Yaml)} {domain k : String} {operations : Yaml}
  {merged : Policies}

theorem overlayDomain_installs (h : Installs merged domain) :
    overlayDomain (homeTable home) merged domain operations =
      { merged with proto := spread (homeDomain home domain) operations.entries } := by
  rw [overlayDomain]
  exact if_pos ⟨h.1, by rw [h.2]; rfl⟩

theorem overlayDomain_assigns (h : ¬Installs merged domain) :
    overlayDomain (homeTable home) merged domain operations =
      { merged with
        value := .map (assign domain (overlaid home domain operations)
          merged.value.entries) } := by
  rw [overlayDomain]
  exact if_neg fun hi => h ⟨hi.1, Option.isNone_iff_eq_none.1 hi.2⟩

theorem lookup_overlayDomain :
    lookup (overlayDomain (homeTable home) merged domain operations).value.entries k =
      if domain = k ∧ ¬Installs merged k then some (overlaid home domain operations)
      else lookup merged.value.entries k := by
  by_cases h : Installs merged domain
  · rw [overlayDomain_installs h, if_neg]
    rintro ⟨rfl, hk⟩
    exact hk h
  · rw [overlayDomain_assigns h]
    change lookup (assign _ _ _) k = _
    rw [lookup_assign]
    by_cases hk : domain = k
    · rw [if_pos hk, if_pos ⟨hk, hk ▸ h⟩]
    · rw [if_neg hk, if_neg fun hi => hk hi.1]

theorem installs_overlayDomain :
    Installs (overlayDomain (homeTable home) merged domain operations) k ↔ Installs merged k := by
  rw [Installs, lookup_overlayDomain]
  split_ifs with h
  · exact iff_of_false (fun hi => hi.2) h.2
  · rfl

theorem proto_overlayDomain :
    (overlayDomain (homeTable home) merged domain operations).proto =
      if Installs merged domain then spread (homeDomain home domain) operations.entries
      else merged.proto := by
  split_ifs with h
  · rw [overlayDomain_installs h]
  · rw [overlayDomain_assigns h]

theorem lookup_foldl_overlayDomain (hnodup : (vault.map Prod.fst).Nodup) :
    lookup (vault.foldl (fun merged p => overlayDomain (homeTable home) merged p.1 p.2)
        merged).value.entries k =
      if Installs merged k then none
      else ((lookup vault k).map (overlaid home k)).or (lookup merged.value.entries k) := by
  induction vault generalizing merged with
  | nil =>
    split_ifs with hi
    · exact hi.2
    · rfl
  | cons p vault ih =>
    obtain ⟨hnot, hnodup⟩ := List.nodup_cons.1 hnodup
    rw [List.foldl_cons, ih hnodup]
    by_cases hi : Installs merged k
    · rw [if_pos hi, if_pos (installs_overlayDomain.2 hi)]
    · rw [if_neg hi, if_neg fun h => hi (installs_overlayDomain.1 h), lookup_overlayDomain,
        lookup_cons]
      by_cases hk : p.1 = k
      · have hnone : lookup vault k = none := lookup_eq_none_iff.2 (hk ▸ hnot)
        rw [if_pos ⟨hk, hi⟩, if_pos hk, hnone, hk]
        rfl
      · rw [if_neg fun h => hk h.1, if_neg hk]

theorem proto_foldl_overlayDomain (hnodup : (vault.map Prod.fst).Nodup) :
    (vault.foldl (fun merged p => overlayDomain (homeTable home) merged p.1 p.2) merged).proto =
      if Installs merged "__proto__" then
        (lookup vault "__proto__").elim merged.proto fun operations =>
          spread (homeDomain home "__proto__") operations.entries
      else merged.proto := by
  induction vault generalizing merged with
  | nil => split_ifs <;> rfl
  | cons p vault ih =>
    obtain ⟨hnot, hnodup⟩ := List.nodup_cons.1 hnodup
    rw [List.foldl_cons, ih hnodup, lookup_cons, proto_overlayDomain]
    by_cases hi : Installs merged "__proto__"
    · rw [if_pos hi, if_pos (installs_overlayDomain.2 hi)]
      by_cases hp : p.1 = "__proto__"
      · have hnone : lookup vault "__proto__" = none := lookup_eq_none_iff.2 (hp ▸ hnot)
        rw [if_pos hp, if_pos (hp ▸ hi), hnone, hp]
        rfl
      · rw [if_neg hp, if_neg fun h => hp h.1]
    · rw [if_neg hi, if_neg fun h => hi (installs_overlayDomain.1 h),
        if_neg fun (h : Installs merged p.1) => hi (h.1 ▸ h)]

theorem foldl_overlayDomain_vaultInvalid :
    (vault.foldl (fun merged p => overlayDomain (homeTable home) merged p.1 p.2)
      merged).vaultInvalid = merged.vaultInvalid := by
  induction vault generalizing merged with
  | nil => rfl
  | cons p vault ih =>
    rw [List.foldl_cons, ih]
    by_cases hi : Installs merged p.1
    · rw [overlayDomain_installs hi]
    · rw [overlayDomain_assigns hi]

theorem foldl_overlayDomain_value (h : ∃ es, merged.value = .map es) :
    ∃ es, (vault.foldl (fun merged p => overlayDomain (homeTable home) merged p.1 p.2)
      merged).value = .map es := by
  induction vault generalizing merged with
  | nil => exact h
  | cons p vault ih =>
    rw [List.foldl_cons]
    refine ih ?_
    by_cases hi : Installs merged p.1
    · rw [overlayDomain_installs hi]
      exact h
    · rw [overlayDomain_assigns hi]
      exact ⟨_, rfl⟩

theorem overlay_vaultInvalid : (overlay home vault).vaultInvalid = false :=
  foldl_overlayDomain_vaultInvalid

/-- The prototype that a vault file installs. -/
def overlaidProto (home : Yaml) (vault : List (String × Yaml)) : List (String × Yaml) :=
  if Installs (homeCopy home) "__proto__" then
    (lookup vault "__proto__").elim [] fun operations =>
      spread (homeDomain home "__proto__") operations.entries
  else []

/-- What the table of a vault file has under a domain, other than what every object inherits. -/
def overlaidAt (home : Yaml) (vault : List (String × Yaml)) (domain : String) : Option Yaml :=
  (if Installs (homeCopy home) domain then none
    else ((lookup vault domain).map (overlaid home domain)).or
      (lookup (homeTable home).entries domain)).or (lookup (overlaidProto home vault) domain)

/-- What the program finds under a domain. -/
def found (L : Library grants) (domain : String) : Option Yaml → JsValue
  | some v => .data v
  | none => L.get (.data (.map [])) domain

/-- A domain of the overlay is that of the vault over that of the home. -/
theorem overlay_get (hL : L.Uniform) (hnodup : (vault.map Prod.fst).Nodup) :
    (overlay home vault).get L domain = found L domain (overlaidAt home vault domain) := by
  obtain ⟨es, hes⟩ : ∃ es, (overlay home vault).value = .map es :=
    foldl_overlayDomain_value ⟨_, rfl⟩
  have hvalue : lookup (overlay home vault).value.entries domain = _ :=
    lookup_foldl_overlayDomain hnodup
  have hproto : (overlay home vault).proto = overlaidProto home vault :=
    proto_foldl_overlayDomain hnodup
  rw [hes] at hvalue
  change lookup es domain = _ at hvalue
  rw [Policies.get, hes, hproto, overlaidAt]
  dsimp only
  rw [Option.orElse_eq_orElse, Option.orElse_eq_or, hvalue, hL es []]
  rfl

theorem overlaidAt_of_lookup (hdomain : domain ≠ "__proto__")
    (h : lookup vault domain = some operations) :
    overlaidAt home vault domain = some (overlaid home domain operations) := by
  rw [overlaidAt, if_neg fun hi => hdomain hi.1, h]
  rfl

theorem rel_or {o₁ o₂ o₁' o₂' : Option Yaml} (h₁ : Option.Rel Yaml.Same o₁ o₁')
    (h₂ : Option.Rel Yaml.Same o₂ o₂') : Option.Rel Yaml.Same (o₁.or o₂) (o₁'.or o₂') := by
  cases h₁ with
  | some h => exact .some h
  | none => exact h₂

theorem rel_refl (o : Option Yaml) : Option.Rel Yaml.Same o o := by
  cases o with
  | none => exact .none
  | some v => exact .some (.refl v)

theorem spread_same {own : List (String × Yaml)} {operations' : Yaml}
    (hd : operations.Distinct) (hd' : operations'.Distinct) (h : operations.Same operations') :
    (map (spread own operations.entries)).Same (.map (spread own operations'.entries)) := by
  cases h with
  | refl _ => exact .refl _
  | map keys values =>
    refine same_map_iff.2 fun k => ?_
    rw [entries_map, entries_map, lookup_spread hd.nodup,
      lookup_spread hd'.nodup]
    exact rel_or (same_map_iff.1 (.map keys values) k) (rel_refl _)

section Same

variable (hd : (map vault).Distinct) (hd' : (map vault').Distinct)
  (hproto : Option.Rel Yaml.Same (lookup vault "__proto__") (lookup vault' "__proto__"))

include hd hd'

theorem overlaid_same (home : Yaml)
    (h : Option.Rel Yaml.Same (lookup vault domain) (lookup vault' domain)) :
    Option.Rel Yaml.Same ((lookup vault domain).map (overlaid home domain))
      ((lookup vault' domain).map (overlaid home domain)) := by
  have hv : ∀ w, lookup vault domain = some w → w.Distinct := fun w => hd.of_lookup domain
  have hv' : ∀ w, lookup vault' domain = some w → w.Distinct := fun w => hd'.of_lookup domain
  generalize lookup vault domain = o at *
  generalize lookup vault' domain = o' at *
  cases h with
  | none => exact .none
  | some hsame => exact .some (spread_same (hv _ rfl) (hv' _ rfl) hsame)

include hproto

theorem overlaidProto_same (k : String) :
    Option.Rel Yaml.Same (lookup (overlaidProto home vault) k)
      (lookup (overlaidProto home vault') k) := by
  have hover := overlaid_same hd hd' home hproto
  unfold overlaidProto
  split_ifs
  · generalize lookup vault "__proto__" = o at *
    generalize lookup vault' "__proto__" = o' at *
    cases hproto with
    | none => exact .none
    | some _ =>
      cases hover with
      | some hsame => exact same_map_iff.1 hsame k
  · exact .none

theorem overlay_get_same (hL : L.Uniform)
    (h : Option.Rel Yaml.Same (lookup vault domain) (lookup vault' domain)) :
    ((overlay home vault).get L domain).Same ((overlay home vault').get L domain) := by
  have hat : Option.Rel Yaml.Same (overlaidAt home vault domain) (overlaidAt home vault' domain) := by
    unfold overlaidAt
    refine rel_or ?_ (overlaidProto_same hd hd' hproto domain)
    split_ifs
    · exact .none
    · exact rel_or (overlaid_same hd hd' home h) (rel_refl _)
  rw [overlay_get hL hd.nodup, overlay_get hL hd'.nodup]
  generalize overlaidAt home vault domain = o at *
  generalize overlaidAt home vault' domain = o' at *
  cases hat with
  | none => exact .refl _
  | some hsame => exact .data hsame

end Same

end U2os.Server.Policy
