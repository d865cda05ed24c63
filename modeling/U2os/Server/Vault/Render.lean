import U2os.Lib.Fence
import U2os.Server.Vault.Writeback

/-!
# Writing a vault file

`editVaultFile` of `vault/writeback.js`, with `parseMarkdown` of `vault/markdown.js`: a file is
read, edited and written again.  Where it has a block of frontmatter, the lines of the entries that
change are replaced in it; a text that does not read back as what was meant is dropped for a clean
one, and where the clean one does not either, the edit is refused.

Nobody else writes the file meanwhile.  The YAML library is a parameter.
-/

namespace U2os.Server.Vault

open JsText Fence

/-- `js-yaml` with its core schema: a text of no value reads as `null`. -/
structure YamlLibrary where
  load : String → Except String Yaml
  dump : List (String × Yaml) → String

/-- What stands between the fences. -/
def readFrontmatter (Y : YamlLibrary) (yaml : List Char) : Except String (List (String × Yaml)) :=
  match Y.load (String.ofList yaml) with
  | .error reason => .error ("Invalid YAML frontmatter: " ++ reason)
  | .ok .null => .ok []
  | .ok (.map entries) => .ok entries
  | .ok _ => .error "Frontmatter must be a mapping of keys to values"

/-- `replace(/^\uFEFF/, '')`. -/
def withoutBom (cs : List Char) : List Char :=
  if cs.head?.map Char.toNat = some 65279 then cs.tail else cs

/-- The block of frontmatter, and what follows it. -/
def matchFrontmatter (cs : List Char) : Option (List Char × List Char) := (opening cs).bind block

def parseMarkdown (Y : YamlLibrary) (text : String) : Except String Document :=
  match matchFrontmatter (withoutBom text.toList) with
  | none => .ok ⟨[], String.ofList (trimChars (withoutBom text.toList))⟩
  | some (yaml, rest) =>
    (readFrontmatter Y yaml).map fun fm => ⟨fm, String.ofList (trimChars rest)⟩

mutual
/-- `isDeepStrictEqual`: the order of the keys does not matter. -/
def deepEq : Yaml → Yaml → Bool
  | .null, .null => true
  | .bool a, .bool b => a = b
  | .num a, .num b => a = b
  | .str a, .str b => a = b
  | .date a, .date b => a = b
  | .bytes a, .bytes b => a = b
  | .seq items, .seq items' => deepEqItems items items'
  | .map entries, .map entries' => entries.length = entries'.length && deepEqIn entries entries'
  | _, _ => false
/-- The items are the same, in their order. -/
def deepEqItems : List Yaml → List Yaml → Bool
  | [], [] => true
  | v :: vs, w :: ws => deepEq v w && deepEqItems vs ws
  | _, _ => false
/-- The entries have the same values there. -/
def deepEqIn : List (String × Yaml) → List (String × Yaml) → Bool
  | [], _ => true
  | (k, v) :: es, es' => (Assoc.get? es' k).any (deepEq v) && deepEqIn es es'
end

/-- The frontmatter and the body are those of the text. -/
def readsAs (Y : YamlLibrary) (text : String) (fm : List (String × Yaml)) (body : String) : Bool :=
  match parseMarkdown Y text with
  | .ok d => deepEq (.map d.frontmatter) (.map fm) && d.body = trim body
  | .error _ => false

def trimEnd (cs : List Char) : List Char := (cs.reverse.dropWhile isSpace).reverse

/-- The key, plain or quoted, is what the line starts with, before a colon. -/
def startsEntry (key : String) (line : List Char) : Bool :=
  [key, "\"" ++ key ++ "\"", "'" ++ key ++ "'"].any fun k =>
    k.toList.isPrefixOf line &&
      ((line.drop k.toList.length).dropWhile isSpace).head? = some ':'

/-- The line goes on with the entry before it. -/
def continues (line : List Char) : Bool :=
  line.isEmpty || line.head?.any fun c => isSpace c || c = '-'

/-- The lines without the empty ones at the end. -/
def withoutEmpty (lines : List (List Char)) : List (List Char) :=
  (lines.reverse.dropWhile fun l => l = []).reverse

/-- `entryRange`: the lines of an entry. -/
def entryRange (key : String) (lines : List (List Char)) : Option (ℕ × ℕ) :=
  (lines.findIdx? (startsEntry key)).map fun start =>
    (start, start + 1 +
      (withoutEmpty ((lines.drop (start + 1)).takeWhile continues)).length)

/-- The lines of a new entry. -/
def entryLines (Y : YamlLibrary) (key : String) (value : Yaml) : List (List Char) :=
  (trimEnd (Y.dump [(key, value)]).toList).splitOn '\n'

def setEntry (Y : YamlLibrary) (key : String) (value : Yaml) (lines : List (List Char)) :
    List (List Char) :=
  match entryRange key lines with
  | none => withoutEmpty lines ++ entryLines Y key value
  | some (start, stop) => lines.take start ++ (entryLines Y key value ++ lines.drop stop)

def removeEntry (key : String) (lines : List (List Char)) : List (List Char) :=
  match entryRange key lines with
  | none => lines
  | some (start, stop) => lines.take start ++ lines.drop stop

/-- The loop over the keys throws: an entry is taken out whose key every object has, so that the
frontmatter still has a function under this name, which `dump` throws on. -/
def dumpsFunction (old new : List (String × Yaml)) (key : String) : Bool :=
  (Assoc.get? old key).isSome && (Assoc.get? new key).isNone &&
    (key ∈ objectPrototype && key ≠ "__proto__")

/-- What becomes of the lines where the entry of a key changes.  Without an entry `__proto__` is the
prototype of all objects, which `dump` writes as an empty mapping. -/
def editEntry (Y : YamlLibrary) (old new : List (String × Yaml)) (lines : List (List Char))
    (key : String) : List (List Char) :=
  match Assoc.get? old key, Assoc.get? new key with
  | some v, some w => if deepEq v w = true then lines else setEntry Y key w lines
  | none, some w => setEntry Y key w lines
  | some _, none =>
    if key = "__proto__" then setEntry Y key (.map []) lines else removeEntry key lines
  | none, none => lines

/-- The lines of the frontmatter, edited. -/
def editLines (Y : YamlLibrary) (old new : List (String × Yaml)) (yaml : List Char) :
    List (List Char) :=
  (old.map Prod.fst ++ new.map Prod.fst).eraseDups.foldl (editEntry Y old new) (splitLines yaml)

/-- A text of frontmatter and body. -/
def fenced (eol yaml rest : List Char) : String :=
  String.ofList (['-', '-', '-'] ++ (eol ++ (yaml ++ (eol ++ (['-', '-', '-'] ++ (eol ++ rest))))))

def bodyText (body : String) : List Char :=
  if trimChars body.toList = [] then [] else trimChars body.toList ++ ['\n']

def cleanText (Y : YamlLibrary) (fm : List (String × Yaml)) (body : String) : String :=
  String.ofList ("---\n".toList ++ ((if fm = [] then [] else (Y.dump fm).toList) ++
    ("---\n".toList ++ bodyText body)))

/-- What ends the lines of the frontmatter of a text. -/
def eolOf (cs rest : List Char) : List Char :=
  if hasCrlf (cs.take (cs.length - rest.length)) = true then ['\r', '\n'] else ['\n']

def render (Y : YamlLibrary) (text : String) (d : Document) (fm : List (String × Yaml))
    (body : String) : Except EditError String :=
  match matchFrontmatter text.toList with
  | none => .ok (cleanText Y fm body)
  | some (yaml, rest) =>
    if (d.frontmatter.map Prod.fst).any (dumpsFunction d.frontmatter fm) = true then .error .crash
    else
      let eol := eolOf text.toList rest
      let candidate := fenced eol (joinLines eol (editLines Y d.frontmatter fm yaml))
        (if d.body = trim body then rest else bodyText body)
      .ok (if readsAs Y candidate fm body = true then candidate else cleanText Y fm body)

inductive FileEdit where
  | write (edit : FactEdit)
  | remove (key : String)
  | reclassify (key : String) (classification : Yaml)

/-- What a file is to say. -/
def FileEdit.apply (target : Target) (d : Document) : FileEdit → Except EditError Written
  | write edit => writeFactToVault target edit d
  | remove key =>
    let removed := removeFactFromVault key d
    .ok ⟨removed.frontmatter, removed.body, none⟩
  | reclassify key classification => reclassifyFactInVault key classification d

def maxVaultFileBytes : ℕ := 256 * 1024

/-- The edit is refused at the end. -/
def cannotRender : EditError :=
  .writeBack "Could not produce a valid vault file for this edit" 500

/-- The check of a text before it is written. -/
def checkWritten (Y : YamlLibrary) (written : Written) (text : String) : Except EditError String :=
  match parseMarkdown Y text with
  | .error _ => .error .crash
  | .ok _ =>
    if readsAs Y text written.frontmatter written.body = true then .ok text
    else .error cannotRender

/-- `editVaultFile`: the text that is written. -/
def editVaultFile (Y : YamlLibrary) (target : Target) (edit : FileEdit) (text : String) :
    Except EditError String :=
  if maxVaultFileBytes < text.utf8ByteSize then
    .error (.writeBack "The vault file is too large to edit" 409)
  else
    match parseMarkdown Y text with
    | .error _ => .error (.writeBack
        (target.relativePath ++ " has invalid frontmatter; fix the file first") 409)
    | .ok d => do
      let written ← edit.apply target d
      let text ← render Y text d written.frontmatter written.body
      checkWritten Y written text

end U2os.Server.Vault
