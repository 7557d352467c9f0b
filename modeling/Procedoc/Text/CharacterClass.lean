/-! # Names of character classes

The names under which a pattern asks for the characters of a general category, a script or another
property.  Case, blanks, hyphens and underscores in a name do not count.
-/

namespace Procedoc.Text
set_option autoImplicit false

/-- The general categories, short and long. -/
def categoryNames : List String := ["c", "other", "cc", "control", "cntrl", "cf", "format", "cn",
  "unassigned", "co", "privateuse", "cs", "surrogate", "l", "letter", "lc", "casedletter", "ll",
  "lowercaseletter", "lm", "modifierletter", "lo", "otherletter", "lt", "titlecaseletter", "lu",
  "uppercaseletter", "m", "mark", "combiningmark", "mc", "spacingmark", "me", "enclosingmark",
  "mn", "nonspacingmark", "n", "number", "nd", "decimalnumber", "digit", "nl", "letternumber",
  "no", "othernumber", "p", "punctuation", "punct", "pc", "connectorpunctuation", "pd",
  "dashpunctuation", "pe", "closepunctuation", "pf", "finalpunctuation", "pi",
  "initialpunctuation", "po", "otherpunctuation", "ps", "openpunctuation", "s", "symbol", "sc",
  "currencysymbol", "sk", "modifiersymbol", "sm", "mathsymbol", "so", "othersymbol", "z",
  "separator", "zl", "lineseparator", "zp", "paragraphseparator", "zs", "spaceseparator", "any",
  "assigned", "ascii"]

/-- Properties that a character has or has not. -/
def propertyNames : List String := ["alphabetic", "alpha", "asciihexdigit", "ahex", "bidicontrol",
  "caseignorable", "ci", "cased", "dash", "defaultignorablecodepoint", "deprecated", "diacritic",
  "emoji", "emojimodifier", "emojimodifierbase", "emojipresentation", "extendedpictographic",
  "extender", "graphemebase", "graphemeextend", "hexdigit", "hex", "hyphen", "idcontinue", "idc",
  "ideographic", "ideo", "idstart", "ids", "joincontrol", "lowercase", "lower", "math",
  "noncharactercodepoint", "patternsyntax", "patternwhitespace", "quotationmark", "qmark",
  "radical", "regionalindicator", "sentenceterminal", "softdotted", "terminalpunctuation",
  "unifiedideograph", "uppercase", "upper", "variationselector", "whitespace", "wspace", "space",
  "xidcontinue", "xidc", "xidstart", "xids"]

/-- Scripts, long and short. -/
def scriptNames : List String := ["arabic", "arab", "armenian", "armn", "bengali", "beng",
  "bopomofo", "bopo", "braille", "brai", "canadianaboriginal", "cans", "cherokee", "cher",
  "common", "zyyy", "coptic", "copt", "cyrillic", "cyrl", "devanagari", "deva", "ethiopic", "ethi",
  "georgian", "geor", "gothic", "goth", "greek", "grek", "gujarati", "gujr", "gurmukhi", "guru",
  "han", "hani", "hangul", "hang", "hebrew", "hebr", "hiragana", "hira", "inherited", "zinh",
  "kannada", "knda", "katakana", "kana", "khmer", "khmr", "lao", "laoo", "latin", "latn",
  "malayalam", "mlym", "mongolian", "mong", "myanmar", "mymr", "ogham", "ogam", "oriya", "orya",
  "runic", "runr", "sinhala", "sinh", "syriac", "syrc", "tamil", "taml", "telugu", "telu",
  "thaana", "thaa", "thai", "tibetan", "tibt", "yi", "yiii"]

/-- A name without what does not count in it. -/
def plainClassName (cs : List Char) : List Char :=
  (cs.filter fun c => c ≠ ' ' && c ≠ '-' && c ≠ '_').map Char.toLower

/-- Whether a property of characters has the name, which may say `category=` or `script=` first. -/
def isClassName (cs : List Char) : Bool :=
  let name := plainClassName cs
  let known (names : List String) (cs : List Char) : Bool := names.contains (String.ofList cs)
  match name.dropWhile fun c => c ≠ '=' && c ≠ ':' with
  | _ :: value =>
    let key := name.takeWhile fun c => c ≠ '=' && c ≠ ':'
    if known ["gc", "generalcategory"] key then known categoryNames value
    else known ["sc", "script", "scx", "scriptextensions"] key && known scriptNames value
  | [] => known categoryNames name || known propertyNames name || known scriptNames name

example : isClassName "Lu".toList ∧ isClassName "White_Space".toList ∧ isClassName "Greek".toList
    ∧ ¬ isClassName "Nope".toList := by decide +kernel

end Procedoc.Text
