/-
This file finds characters by their names. The names of ideographs and of Korean syllables are
formed by rule. The names of controls, of Latin, Greek and Cyrillic letters and of common signs
are in a table, and no other name is known here. Whoever looks up names may use another table.
-/

import MiniShell.Text.Boundary

namespace MiniShell.Text

/-! ### Names in the table -/

/-- The names of characters in a row, whose code points go up from the first one. All of them begin
in the same way, and the rest of each name is given, with commas between them. -/
structure NameRow where
  first : Nat
  opening : String
  endings : List String

/-- Names of characters, and other names that they are known by. -/
def nameRows : List NameRow :=
  [⟨0x0, "", ["NULL,START OF HEADING,START OF TEXT,END OF TEXT,END OF TRANSMISSION,ENQUIRY",
     "ACKNOWLEDGE,ALERT,BACKSPACE,CHARACTER TABULATION,LINE FEED,LINE TABULATION,FORM FEED",
     "CARRIAGE RETURN,SHIFT OUT,SHIFT IN,DATA LINK ESCAPE,DEVICE CONTROL ONE",
     "DEVICE CONTROL TWO,DEVICE CONTROL THREE,DEVICE CONTROL FOUR,NEGATIVE ACKNOWLEDGE",
     "SYNCHRONOUS IDLE,END OF TRANSMISSION BLOCK,CANCEL,END OF MEDIUM,SUBSTITUTE,ESCAPE",
     "INFORMATION SEPARATOR FOUR,INFORMATION SEPARATOR THREE,INFORMATION SEPARATOR TWO",
     "INFORMATION SEPARATOR ONE"]⟩,
   ⟨0x0, "", ["NUL,SOH,STX,ETX,EOT,ENQ,ACK,BEL,BS,TAB,LF,VT,FF,CR,SO,SI,DLE,DC1,DC2,DC3,DC4",
     "NAK,SYN,ETB,CAN,EOM,SUB,ESC,FS,GS,RS,US,SP"]⟩,
   ⟨0x20, "", ["SPACE,EXCLAMATION MARK,QUOTATION MARK,NUMBER SIGN,DOLLAR SIGN,PERCENT SIGN",
     "AMPERSAND,APOSTROPHE,LEFT PARENTHESIS,RIGHT PARENTHESIS,ASTERISK,PLUS SIGN,COMMA",
     "HYPHEN-MINUS,FULL STOP,SOLIDUS"]⟩,
   ⟨0x30, "DIGIT ", ["ZERO,ONE,TWO,THREE,FOUR,FIVE,SIX,SEVEN,EIGHT,NINE"]⟩,
   ⟨0x3A, "", ["COLON,SEMICOLON,LESS-THAN SIGN,EQUALS SIGN,GREATER-THAN SIGN,QUESTION MARK",
     "COMMERCIAL AT"]⟩,
   ⟨0x41, "LATIN CAPITAL LETTER ", ["A,B,C,D,E,F,G,H,I,J,K,L,M,N,O,P,Q,R,S,T,U,V,W,X,Y,Z"]⟩,
   ⟨0x5B, "", ["LEFT SQUARE BRACKET,REVERSE SOLIDUS,RIGHT SQUARE BRACKET,CIRCUMFLEX ACCENT",
     "LOW LINE,GRAVE ACCENT"]⟩,
   ⟨0x61, "LATIN SMALL LETTER ", ["A,B,C,D,E,F,G,H,I,J,K,L,M,N,O,P,Q,R,S,T,U,V,W,X,Y,Z"]⟩,
   ⟨0x7B, "", ["LEFT CURLY BRACKET,VERTICAL LINE,RIGHT CURLY BRACKET,TILDE"]⟩,
   ⟨0xA0, "", ["NO-BREAK SPACE,INVERTED EXCLAMATION MARK,CENT SIGN,POUND SIGN,CURRENCY SIGN",
     "YEN SIGN,BROKEN BAR,SECTION SIGN,DIAERESIS,COPYRIGHT SIGN,FEMININE ORDINAL INDICATOR",
     "LEFT-POINTING DOUBLE ANGLE QUOTATION MARK,NOT SIGN,SOFT HYPHEN,REGISTERED SIGN,MACRON",
     "DEGREE SIGN,PLUS-MINUS SIGN,SUPERSCRIPT TWO,SUPERSCRIPT THREE,ACUTE ACCENT,MICRO SIGN",
     "PILCROW SIGN,MIDDLE DOT,CEDILLA,SUPERSCRIPT ONE,MASCULINE ORDINAL INDICATOR",
     "RIGHT-POINTING DOUBLE ANGLE QUOTATION MARK,VULGAR FRACTION ONE QUARTER",
     "VULGAR FRACTION ONE HALF,VULGAR FRACTION THREE QUARTERS,INVERTED QUESTION MARK"]⟩,
   ⟨0xC0, "LATIN CAPITAL LETTER ", ["A WITH GRAVE,A WITH ACUTE,A WITH CIRCUMFLEX,A WITH TILDE",
     "A WITH DIAERESIS,A WITH RING ABOVE,AE,C WITH CEDILLA,E WITH GRAVE,E WITH ACUTE",
     "E WITH CIRCUMFLEX,E WITH DIAERESIS,I WITH GRAVE,I WITH ACUTE,I WITH CIRCUMFLEX",
     "I WITH DIAERESIS,ETH,N WITH TILDE,O WITH GRAVE,O WITH ACUTE,O WITH CIRCUMFLEX",
     "O WITH TILDE,O WITH DIAERESIS"]⟩,
   ⟨0xD7, "", ["MULTIPLICATION SIGN"]⟩,
   ⟨0xD8, "LATIN CAPITAL LETTER ", ["O WITH STROKE,U WITH GRAVE,U WITH ACUTE,U WITH CIRCUMFLEX",
     "U WITH DIAERESIS,Y WITH ACUTE,THORN"]⟩,
   ⟨0xDF, "LATIN SMALL LETTER ", ["SHARP S,A WITH GRAVE,A WITH ACUTE,A WITH CIRCUMFLEX",
     "A WITH TILDE,A WITH DIAERESIS,A WITH RING ABOVE,AE,C WITH CEDILLA,E WITH GRAVE",
     "E WITH ACUTE,E WITH CIRCUMFLEX,E WITH DIAERESIS,I WITH GRAVE,I WITH ACUTE",
     "I WITH CIRCUMFLEX,I WITH DIAERESIS,ETH,N WITH TILDE,O WITH GRAVE,O WITH ACUTE",
     "O WITH CIRCUMFLEX,O WITH TILDE,O WITH DIAERESIS"]⟩,
   ⟨0xF7, "", ["DIVISION SIGN"]⟩,
   ⟨0xF8, "LATIN SMALL LETTER ", ["O WITH STROKE,U WITH GRAVE,U WITH ACUTE,U WITH CIRCUMFLEX",
     "U WITH DIAERESIS,Y WITH ACUTE,THORN,Y WITH DIAERESIS"]⟩,
   ⟨0x391, "GREEK CAPITAL LETTER ", ["ALPHA,BETA,GAMMA,DELTA,EPSILON,ZETA,ETA,THETA,IOTA,KAPPA",
     "LAMDA,MU,NU,XI,OMICRON,PI,RHO"]⟩,
   ⟨0x3A3, "GREEK CAPITAL LETTER ", ["SIGMA,TAU,UPSILON,PHI,CHI,PSI,OMEGA,IOTA WITH DIALYTIKA",
     "UPSILON WITH DIALYTIKA"]⟩,
   ⟨0x3AC, "GREEK SMALL LETTER ", ["ALPHA WITH TONOS,EPSILON WITH TONOS,ETA WITH TONOS",
     "IOTA WITH TONOS,UPSILON WITH DIALYTIKA AND TONOS,ALPHA,BETA,GAMMA,DELTA,EPSILON,ZETA,ETA",
     "THETA,IOTA,KAPPA,LAMDA,MU,NU,XI,OMICRON,PI,RHO,FINAL SIGMA,SIGMA,TAU,UPSILON,PHI,CHI,PSI",
     "OMEGA,IOTA WITH DIALYTIKA,UPSILON WITH DIALYTIKA,OMICRON WITH TONOS,UPSILON WITH TONOS",
     "OMEGA WITH TONOS"]⟩,
   ⟨0x410, "CYRILLIC CAPITAL LETTER ", ["A,BE,VE,GHE,DE,IE,ZHE,ZE,I,SHORT I,KA,EL,EM,EN,O,PE",
     "ER,ES,TE,U,EF,HA,TSE,CHE,SHA,SHCHA,HARD SIGN,YERU,SOFT SIGN,E,YU,YA"]⟩,
   ⟨0x430, "CYRILLIC SMALL LETTER ", ["A,BE,VE,GHE,DE,IE,ZHE,ZE,I,SHORT I,KA,EL,EM,EN,O,PE,ER",
     "ES,TE,U,EF,HA,TSE,CHE,SHA,SHCHA,HARD SIGN,YERU,SOFT SIGN,E,YU,YA"]⟩,
   ⟨0x2010, "", ["HYPHEN,NON-BREAKING HYPHEN,FIGURE DASH,EN DASH,EM DASH,HORIZONTAL BAR",
     "DOUBLE VERTICAL LINE,DOUBLE LOW LINE,LEFT SINGLE QUOTATION MARK",
     "RIGHT SINGLE QUOTATION MARK,SINGLE LOW-9 QUOTATION MARK",
     "SINGLE HIGH-REVERSED-9 QUOTATION MARK,LEFT DOUBLE QUOTATION MARK",
     "RIGHT DOUBLE QUOTATION MARK,DOUBLE LOW-9 QUOTATION MARK",
     "DOUBLE HIGH-REVERSED-9 QUOTATION MARK,DAGGER,DOUBLE DAGGER,BULLET,TRIANGULAR BULLET",
     "ONE DOT LEADER,TWO DOT LEADER,HORIZONTAL ELLIPSIS,HYPHENATION POINT"]⟩,
   ⟨0x20AC, "", ["EURO SIGN"]⟩]

/-- What follows a beginning of a text. -/
def after? (opening text : Text) : Option Text :=
  if opening.isPrefixOf text then some (text.drop opening.length) else none

/-- The code point of the character with a name in a row. -/
def codeInRow? (name : Text) (row : NameRow) : Option Nat := do
  let rest ← after? row.opening.toList name
  let endings := row.endings.flatMap fun line =>
    splitAt (fun character => character = ',') line.toList
  return row.first + (← endings.findIdx? (· == rest))

/-! ### Names by rule -/

/-- Where the ideographs begin and end that are named by their code points. -/
def ideographBoundaries : List Nat :=
  [0x3400, 0x4DC0, 0x4E00, 0xA000, 0x20000, 0x2A6E0, 0x2A700, 0x2B739, 0x2B740, 0x2B81E, 0x2B820,
   0x2CEA2, 0x2CEB0, 0x2EBE1, 0x30000, 0x3134B]

/-- The value of a hexadecimal digit. A digit that is a letter is a capital. -/
def hexDigit? (character : Char) : Option Nat :=
  if character.isDigit then some (character.toNat - 48)
  else if 'A' ≤ character && character ≤ 'F' then some (character.toNat - 55)
  else none

/-- The code point of an ideograph: four or five digits follow the opening of its name. -/
def ideograph? (name : Text) : Option Nat := do
  let digits ← after? "CJK UNIFIED IDEOGRAPH-".toList name
  let code ← digits.foldlM (fun value digit => (16 * value + ·) <$> hexDigit? digit) 0
  if (digits.length = 4 || digits.length = 5) && within false ideographBoundaries code then code
  else none

/-- The longest of some beginnings of a text that the text has, by its number, and what follows. -/
def longestOpening? (openings : List String) (text : Text) : Option (Nat × Text) :=
  openings.zipIdx.foldl (fun best (opening, number) =>
    match after? opening.toList text with
    | none => best
    | some rest =>
      if best.all fun (_, other) => rest.length < other.length then some (number, rest) else best)
    none

/-- The code point of a syllable, whose name is made of a first consonant, a vowel and last
consonants, each as long as possible. -/
def syllable? (name : Text) : Option Nat := do
  let sounds ← after? "HANGUL SYLLABLE ".toList name
  let (first, rest) ← longestOpening? ["G", "GG", "N", "D", "DD", "R", "M", "B", "BB", "S", "SS",
    "", "J", "JJ", "C", "K", "T", "P", "H"] sounds
  let (vowel, rest) ← longestOpening? ["A", "AE", "YA", "YAE", "EO", "E", "YEO", "YE", "O", "WA",
    "WAE", "OE", "YO", "U", "WEO", "WE", "WI", "YU", "EU", "YI", "I"] rest
  let (last, rest) ← longestOpening? ["", "G", "GG", "GS", "N", "NJ", "NH", "D", "L", "LG", "LM",
    "LB", "LS", "LT", "LP", "LH", "M", "B", "BS", "S", "SS", "NG", "J", "C", "K", "T", "P", "H"]
    rest
  if rest.isEmpty then some (0xAC00 + (first * 21 + vowel) * 28 + last) else none

/-! ### All names -/

/-- The code point of the character with a name. The case of letters matters only where names are
formed by rule. -/
def codeOfName? (name : Text) : Option Nat :=
  syllable? name <|> ideograph? name <|> nameRows.findSome? (codeInRow? (name.map Char.toUpper))

end MiniShell.Text
