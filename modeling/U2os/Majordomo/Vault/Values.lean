import U2os.Majordomo.Vault.Markdown
import U2os.Server.Vault.Document

/-!
# Values that both sides read alike

A value of the core schema reads alike where both languages write the same text for its numbers,
the keys of its mappings are scalars with different texts, and no mapping has its keys in an order
that JavaScript changes.
-/

namespace U2os

open List

/-- The entries of a mapping. -/
def CoreValue.entries : CoreValue → List (CoreKey × CoreValue)
  | .map entries => entries
  | _ => []

variable {V : Type} {v : CoreValue} {items : List CoreValue} {entries : List (CoreKey × CoreValue)}

/-- Both languages write the same text for the number, and it is finite. -/
def CoreNumber.Plain (n : CoreNumber) : Prop :=
  n.json = some n.node ∧ ["NaN", "Infinity", "-Infinity"].contains n.node = false

/-- Both languages have the same text for the key. -/
def CoreKey.Plain : CoreKey → Prop
  | .num n => n.key = n.node
  | .complex _ => False
  | _ => True

mutual
/-- The value reads alike. -/
def CoreValue.Plain : CoreValue → Prop
  | .num n => n.Plain
  | .seq items => itemsPlain items
  | .map entries => entriesPlain entries ∧ (entries.map fun e => e.1.node).Nodup ∧
      jsOrder (entriesToYaml entries) = entriesToYaml entries
  | _ => True
/-- The items of a list read alike. -/
def itemsPlain : List CoreValue → Prop
  | [] => True
  | v :: vs => v.Plain ∧ itemsPlain vs
/-- The entries of a mapping read alike. -/
def entriesPlain : List (CoreKey × CoreValue) → Prop
  | [] => True
  | (k, v) :: es => (k.Plain ∧ v.Plain) ∧ entriesPlain es
end

/-- The value reads alike as a frontmatter: the order of its keys does not matter. -/
def CoreValue.PlainFrontmatter : CoreValue → Prop
  | .map entries => entriesPlain entries ∧ (entries.map fun e => e.1.node).Nodup
  | .num n => n.json ≠ none
  | _ => True

/-- A frontmatter in plain spelling has plain entries under different keys. -/
theorem CoreValue.PlainFrontmatter.plain (h : v.PlainFrontmatter) :
    entriesPlain v.entries ∧ (v.entries.map fun e => e.1.node).Nodup := by
  cases v with
  | map entries => exact h
  | _ => exact ⟨trivial, nodup_nil⟩

/-- The order of the language permutes the entries. -/
theorem perm_jsOrder (entries : List (String × V)) : (jsOrder entries).Perm entries := by
  have hnot : (entries.filter fun e => (propertyIndex e.1).isNone) =
      entries.filter fun e => !(propertyIndex e.1).isSome :=
    filter_congr fun e _ => by cases propertyIndex e.1 <;> rfl
  unfold jsOrder
  rw [hnot]
  exact ((perm_insertionSort _ _).append_right _).trans
    (filter_append_perm (fun e => (propertyIndex e.1).isSome) entries)

/-- The entries, with the names of their properties. -/
def namedEntries (entries : List (CoreKey × CoreValue)) : List (String × CoreValue) :=
  entries.map fun e => (e.1.node, e.2)

theorem entriesToYaml_eq (entries : List (CoreKey × CoreValue)) :
    entriesToYaml entries = (namedEntries entries).map fun e => (e.1, e.2.toYaml) := by
  induction entries with
  | nil => rfl
  | cons e es ih =>
    rw [entriesToYaml, ih]
    rfl

theorem keys_entriesToYaml (entries : List (CoreKey × CoreValue)) :
    (entriesToYaml entries).map Prod.fst = entries.map fun e => e.1.node := by
  rw [entriesToYaml_eq, namedEntries, map_map, map_map]
  rfl

theorem plain_of_mem (h : entriesPlain entries) : ∀ e ∈ namedEntries entries, e.2.Plain := by
  induction entries with
  | nil => exact forall_mem_nil _
  | cons e es ih => exact forall_mem_cons.2 ⟨h.1.2, ih h.2⟩

namespace Majordomo.Vault

open Server.Vault (encode encodeItems encodeEntries)

theorem encodeEntries_eq (es : List (String × Yaml)) :
    encodeEntries es = es.map fun e => (e.1, encode e.2) := by
  induction es with
  | nil => rfl
  | cons e es ih =>
    rw [encodeEntries, ih]
    rfl

theorem keyText_of_plain {k : CoreKey} (h : k.Plain) : keyText k = .ok k.node := by
  cases k with
  | num n => exact congrArg _ h
  | complex node => exact h.elim
  | _ => rfl

mutual
theorem toJson_of_plain : ∀ {v : CoreValue}, v.Plain → toJson v = .ok (encode v.toYaml)
  | .null, _ => rfl
  | .bool _, _ => rfl
  | .num n, h => by
    have hfinite : ["NaN", "Infinity", "-Infinity"].contains n.node = false := h.2
    rw [toJson, h.1, CoreValue.toYaml, encode, if_neg (by rw [hfinite]; exact Bool.false_ne_true)]
    rfl
  | .str _, _ => rfl
  | .seq items, h => by
    rw [toJson, toJsonItems_of_plain h]
    rfl
  | .map entries, h => by
    rw [toJson, toJsonEntries_of_plain h.1 [] h.2.1, CoreValue.toYaml, h.2.2]
    rfl
theorem toJsonItems_of_plain : ∀ {items : List CoreValue}, itemsPlain items →
    toJsonItems items = .ok (encodeItems (itemsToYaml items))
  | [], _ => rfl
  | v :: vs, h => by
    rw [toJsonItems, toJson_of_plain h.1, toJsonItems_of_plain h.2]
    rfl
theorem toJsonEntries_of_plain : ∀ {entries : List (CoreKey × CoreValue)}, entriesPlain entries →
    ∀ out : List (String × Json),
      (out.map Prod.fst ++ entries.map fun e => e.1.node).Nodup →
      toJsonEntries entries out = .ok (out ++ encodeEntries (entriesToYaml entries))
  | [], _, out, _ => by
    rw [toJsonEntries, entriesToYaml, encodeEntries, append_nil]
  | (k, v) :: es, h, out, hnodup => by
    have hfresh : k.node ∉ out.map Prod.fst := fun hmem =>
      (nodup_append.1 hnodup).2.2 _ hmem _ mem_cons_self rfl
    have hnext : ((out ++ [(k.node, encode v.toYaml)]).map Prod.fst ++
        es.map fun e => e.1.node).Nodup := by
      rw [map_append, append_assoc]
      exact hnodup
    rw [toJsonEntries, keyText_of_plain h.1.1, toJson_of_plain h.1.2]
    change toJsonEntries es (Assoc.assign k.node (encode v.toYaml) out) = _
    rw [Assoc.assign_of_notMem hfresh, toJsonEntries_of_plain h.2 _ hnext, entriesToYaml,
      encodeEntries, append_assoc]
    rfl
end

end Majordomo.Vault

end U2os
