import GoCache.ForStd.Words
import GoCache.Native.Protocol

/-!
# White space

`strings.Fields` and `strings.TrimSpace`. What counts as white space are the runes of
`unicode.IsSpace`; their encodings begin with bytes that are in the middle of no other
rune, so the scan may go on byte by byte.
-/

namespace GoCache.Native

/-- The encodings of the runes of `unicode.IsSpace`. -/
def spaceRunes : List Bytes :=
  [[0x09], [0x0A], [0x0B], [0x0C], [0x0D], [0x20], [0xC2, 0x85], [0xC2, 0xA0], [0xE1, 0x9A, 0x80],
    [0xE2, 0x80, 0x80], [0xE2, 0x80, 0x81], [0xE2, 0x80, 0x82], [0xE2, 0x80, 0x83],
    [0xE2, 0x80, 0x84], [0xE2, 0x80, 0x85], [0xE2, 0x80, 0x86], [0xE2, 0x80, 0x87],
    [0xE2, 0x80, 0x88], [0xE2, 0x80, 0x89], [0xE2, 0x80, 0x8A], [0xE2, 0x80, 0xA8],
    [0xE2, 0x80, 0xA9], [0xE2, 0x80, 0xAF], [0xE2, 0x81, 0x9F], [0xE3, 0x80, 0x80]]

/-- The length of the rune that a text begins with, among some runes, or zero. -/
def runeWidth (runes : List Bytes) (s : Bytes) : Nat :=
  match runes.find? fun rune => rune.isPrefixOf s with
  | some rune => rune.length
  | none => 0

/-- `strings.Fields`. -/
def fields (s : Bytes) : List Bytes := Words.fields (runeWidth spaceRunes) s

/-- `strings.TrimSpace`: at the end, the runes are read backwards. -/
def trimSpace (s : Bytes) : Bytes :=
  (Words.trimLoop (runeWidth (spaceRunes.map List.reverse)) 0
    (Words.trimLoop (runeWidth spaceRunes) 0 s).reverse).reverse

end GoCache.Native
