namespace BoxLayout.Text

-- Characters of the Unicode property White_Space, and words without them at either end.

def blankRanges : List (Nat × Nat) :=
  [(0x9,0xD),(0x20,0x20),(0x85,0x85),(0xA0,0xA0),(0x1680,0x1680),(0x2000,0x200A),(0x2028,0x2029),
    (0x202F,0x202F),(0x205F,0x205F),(0x3000,0x3000)]

def isBlank (c : Char) : Bool := blankRanges.any fun range => range.1 ≤ c.toNat && c.toNat ≤ range.2

def trim (text : List Char) : List Char :=
  ((text.dropWhile isBlank).reverse.dropWhile isBlank).reverse

end BoxLayout.Text
