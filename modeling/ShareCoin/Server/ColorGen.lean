import ShareCoin.Lib.Loop
import ShareCoin.Server.Color

/-!
# `altchain_color.c` — the color of a name

`color_gen` compares a name with the labels of a palette, and takes the three entries that score
best. The score divides the product of the lengths by the edit distance, so that the better match
has the larger score — and the best match of all, an equal label, divides by zero.

Three things are the compiler's or the machine's and not the program's. They are parameters, in
`Target`. What `color_gen` mixes from the three entries, their numbers and the text of their names,
is left out.
-/

namespace ShareCoin.Server

open Lib

/-! ## The palette -/

def rgbTable : List String :=
  ["snow", "ghost white", "white smoke", "gainsboro", "floral white", "old lace", "linen",
   "antique white", "papaya whip", "blanched almond", "bisque", "peach puff", "navajo white",
   "moccasin", "cornsilk", "ivory", "lemon chiffon", "seashell", "honeydew", "mint cream", "azure",
   "alice blue", "lavender", "lavender blush", "mistyrose", "white", "black", "dark slate grey",
   "dim grey", "slate grey", "light slate grey", "grey", "grey", "light grey", "midnight blue",
   "navy", "navy blue", "cornflower blue", "dark slate blue", "slate blue", "medium slate blue",
   "light slate blue", "medium blue", "royal blue", "blue", "dodger blue", "deep sky blue",
   "sky blue", "light sky blue", "steel blue", "light steel blue", "light blue", "powder blue",
   "pale turquoise", "dark turquoise", "medium turquoise", "turquoise", "cyan", "aqua",
   "light cyan", "cadet blue", "medium aqua marine", "aqua marine", "dark green",
   "dark olive green", "dark sea green", "seagreen", "mediumseagreen", "lightseagreen", "palegreen",
   "springgreen", "lawngreen", "green", "lime", "green", "green", "chartreuse", "mediumspringgreen",
   "greenyellow", "limegreen", "yellowgreen", "forestgreen", "olivedrab", "darkkhaki", "khaki",
   "palegoldenrod", "lightgoldenrodyellow", "lightyellow", "yellow", "gold", "lightgoldenrod",
   "goldenrod", "darkgoldenrod", "rosybrown", "indianred", "saddlebrown", "sienna", "peru",
   "burlywood", "beige", "wheat", "sandybrown", "tan", "chocolate", "firebrick", "brown",
   "darksalmon", "salmon", "lightsalmon", "orange", "darkorange", "coral", "lightcoral", "tomato",
   "orangered", "red", "hotpink", "deeppink", "pink", "lightpink", "palevioletred", "maroon",
   "maroon", "maroon", "mediumvioletred", "violetred", "magenta", "fuchsia", "violet", "plum",
   "orchid", "mediumorchid", "darkorchid", "darkviolet", "blueviolet", "purple", "purple", "purple",
   "mediumpurple", "thistle", "snow", "snow", "snow", "snow", "seashell", "seashell", "seashell",
   "seashell", "antiquewhite", "antiquewhite", "antiquewhite", "antiquewhite", "bisque", "bisque",
   "bisque", "bisque", "peachpuff", "peachpuff", "peachpuff", "peachpuff", "navajo white",
   "navajo white", "navajo white", "navajo white", "lemon chiffon", "lemon chiffon",
   "lemon chiffon", "lemon chiffon", "cornsilk", "cornsilk", "cornsilk", "cornsilk", "ivory",
   "ivory", "ivory", "ivory", "honeydew", "honeydew", "honeydew", "honeydew", "lavender blush",
   "lavender blush", "lavender blush", "lavender blush", "misty rose", "misty rose", "misty rose",
   "misty rose", "azure", "azure", "azure", "azure", "slate blue", "slate blue", "slate blue",
   "slate blue", "royal blue", "royal blue", "royal blue", "royal blue", "blue", "blue", "blue",
   "blue", "dodger blue", "dodger blue", "dodger blue", "dodger blue", "steel blue", "steel blue",
   "steel blue", "steel blue", "deep sky blue", "deep sky blue", "deep sky blue", "deep sky blue",
   "sky blue", "sky blue", "sky blue", "sky blue", "light sky blue", "light sky blue",
   "light sky blue", "light sky blue", "slate gray", "slate gray", "slate gray", "slate gray",
   "lightsteelblue", "lightsteelblue", "lightsteelblue", "lightsteelblue", "lightblue", "lightblue",
   "lightblue", "lightblue", "lightcyan", "lightcyan", "lightcyan", "lightcyan", "paleturquoise",
   "paleturquoise", "paleturquoise", "paleturquoise", "cadetblue", "cadetblue", "cadetblue",
   "cadetblue", "turquoise", "turquoise", "turquoise", "turquoise", "cyan", "cyan", "cyan", "cyan",
   "darkslategray", "darkslategray", "darkslategray", "darkslategray", "aquamarine", "aquamarine",
   "aquamarine", "aquamarine", "darkseagreen", "darkseagreen", "darkseagreen", "darkseagreen",
   "seagreen", "seagreen", "seagreen", "seagreen", "palegreen", "palegreen", "palegreen",
   "palegreen", "springgreen", "springgreen", "springgreen", "springgreen", "green", "green",
   "green", "green", "chartreuse", "chartreuse", "chartreuse", "chartreuse", "olivedrab",
   "olivedrab", "olivedrab", "olivedrab", "darkolivegreen", "darkolivegreen", "darkolivegreen",
   "darkolivegreen", "khaki", "khaki", "khaki", "khaki", "lightgoldenrod", "lightgoldenrod",
   "lightgoldenrod", "lightgoldenrod", "lightyellow", "lightyellow", "lightyellow", "lightyellow",
   "yellow", "yellow", "yellow", "yellow", "gold", "gold", "gold", "gold", "goldenrod", "goldenrod",
   "goldenrod", "goldenrod", "darkgoldenrod", "darkgoldenrod", "darkgoldenrod", "darkgoldenrod",
   "rosybrown", "rosybrown", "rosybrown", "rosybrown", "indianred", "indianred", "indianred",
   "indianred", "sienna", "sienna", "sienna", "sienna", "burlywood", "burlywood", "burlywood",
   "burlywood", "wheat", "wheat", "wheat", "wheat", "tan", "tan", "tan", "tan", "chocolate",
   "chocolate", "chocolate", "chocolate", "firebrick", "firebrick", "firebrick", "firebrick",
   "brown", "brown", "brown", "brown", "salmon", "salmon", "salmon", "salmon", "lightsalmon",
   "lightsalmon", "lightsalmon", "lightsalmon", "orange", "orange", "orange", "orange",
   "darkorange", "darkorange", "darkorange", "darkorange", "coral", "coral", "coral", "coral",
   "tomato", "tomato", "tomato", "tomato", "orangered", "orangered", "orangered", "orangered",
   "red", "red", "red", "red", "deeppink", "deeppink", "deeppink", "deeppink", "hotpink", "hotpink",
   "hotpink", "hotpink", "pink", "pink", "pink", "pink", "lightpink", "lightpink", "lightpink",
   "lightpink", "palevioletred", "palevioletred", "palevioletred", "palevioletred", "maroon",
   "maroon", "maroon", "maroon", "violetred", "violetred", "violetred", "violetred", "magenta",
   "magenta", "magenta", "magenta", "orchid", "orchid", "orchid", "orchid", "plum", "plum", "plum",
   "plum", "mediumorchid", "mediumorchid", "mediumorchid", "mediumorchid", "darkorchid",
   "darkorchid", "darkorchid", "darkorchid", "purple", "purple", "purple", "purple", "mediumpurple",
   "mediumpurple", "mediumpurple", "mediumpurple", "thistle", "thistle", "thistle", "thistle",
   "darkgrey", "darkblue", "darkcyan", "darkmagenta", "darkred", "lightgreen", "crimson", "indigo",
   "olive", "rebeccapurple", "silver", "teal"]

def rgbTableMax : Nat := 464

def rgbLabel (i : Nat) : String := rgbTable.getD i ""

/-- A `matrix` of `levenshtein`. -/
abbrev Cells := Nat → Nat → Nat

/-- What the C standard leaves open. -/
structure Target where
  double : Double
  /-- What the stack holds where `matrix` is declared. -/
  stack : Cells
  /-- The `int` that an infinity is converted to, which is undefined. -/
  infToInt : Int
  /-- The address of a label. Equal literals may have one address, and different ones have not. -/
  labelAddr : Nat → Nat
  label_of_addr : ∀ i < rgbTableMax, ∀ j < rgbTableMax,
    labelAddr i = labelAddr j → rgbLabel i = rgbLabel j

/-! ## The edit distance -/

def min3 (a b c : Nat) : Nat :=
  if a < b then (if a < c then a else c) else (if b < c then b else c)

def setCell (matrix : Cells) (x y v : Nat) : Cells :=
  fun x' y' => if x' = x ∧ y' = y then v % 2 ^ 32 else matrix x' y'

/-- The body of the inner loop, for `x + 1` and `y + 1`. -/
def fillCell (s1 s2 : List Char) (x y : Nat) (matrix : Cells) : Cells :=
  setCell matrix (x + 1) (y + 1)
    (min3 ((matrix x (y + 1) + 1) % 2 ^ 32) ((matrix (x + 1) y + 1) % 2 ^ 32)
      ((matrix x y + if s1[y]? = s2[x]? then 0 else 1) % 2 ^ 32))

def levenshtein (target : Target) (s1 s2 : List Char) : Int :=
  let s1len := s1.length % 2 ^ 32
  let s2len := s2.length % 2 ^ 32
  let matrix := setCell target.stack 0 0 0
  let matrix := forRange (fun x m => setCell m (x + 1) 0 (m x 0 + 1)) s2len matrix
  let matrix := forRange (fun y m => setCell m 0 (y + 1) (m 0 y + 1)) s1len matrix
  let matrix := forRange (fun x m => forRange (fillCell s1 s2 x) s1len m) s2len matrix
  Int.bmod (matrix s2len s1len) (2 ^ 32)

/-- `_str_span`, for strings that are not empty and a distance that is an `int`: the quotient is not
    negative, and it is an infinity where the distance is zero. -/
def strSpan (target : Target) (str1 str2 : List Char) : Int :=
  let d := levenshtein target str1 str2
  if d = 0 then target.infToInt
  else ⌊target.double.rnd (target.double.rnd (str1.length * str2.length : Nat) / (d : Rat))⌋

/-! ## The choice -/

def nameBuf (name : List Char) : List Char := (name.take 127).map Char.toLower

/-- A loop over the table for the best score above zero, with the entries that it passes over. -/
def bestColor (score : Nat → Int) (skip : Nat → Bool) : Option Nat :=
  (forRange (fun i best =>
      if skip i then best else if best.1 < score i then (score i, some i) else best)
    rgbTableMax ((0 : Int), none)).2

structure ColorPick where
  pri : Nat
  sec : Nat
  tri : Nat

/-- The choice of `color_gen`. It reads through all three pointers, and there is no result where
    one of them is null; an empty name is not looked up. -/
def colorGen (target : Target) (name : List Char) : Option (Option ColorPick) :=
  if name.isEmpty then some none
  else do
    let score i := strSpan target (nameBuf name) (rgbLabel i).toList
    let same i j := target.labelAddr i == target.labelAddr j
    let pri ← bestColor score fun _ => false
    let sec ← bestColor score fun i => same i pri
    let tri ← bestColor score fun i => same i pri || same i sec
    return some ⟨pri, sec, tri⟩

end ShareCoin.Server
