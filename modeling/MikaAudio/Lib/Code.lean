import MikaAudio.Lib.Buffer

/-!
# Values kept in blocks

A `Code` writes a value as a block of fixed length and reads it back, without loss in
either direction.  `put` writes a value into an array and `get` reads one:

* `Code.get_put`, `Code.put_get`: the round trips,
* `Code.getElem?_put`: a value changes only its own block,
* `Code.get_of_partOf`: a value is read wherever its block is a part of the array, so that
  any number of values in disjoint blocks can be read (`partOf_overwrites`).
-/

namespace Buffer

variable {α β : Type*}

/-- A way to write values of `β` as blocks of `width` elements. -/
structure Code (α β : Type*) where
  width : Nat
  encode : β → List α
  decode : List α → β
  length_encode : ∀ v, (encode v).length = width
  decode_encode : ∀ v, decode (encode v) = v
  encode_decode : ∀ ys, ys.length = width → encode (decode ys) = ys

namespace Code

variable (c : Code α β)

/-- The array with the value at position `i`. -/
def put (xs : List α) (i : Nat) (v : β) : List α :=
  overwrite xs i (c.encode v)

/-- The value at position `i`. -/
def get (xs : List α) (i : Nat) : β :=
  c.decode ((xs.drop i).take c.width)

variable {c} {xs : List α} {i : Nat} {v w : β}

theorem getElem?_put (h : i + c.width ≤ xs.length) {k : Nat} (hk : k < i ∨ i + c.width ≤ k) :
    (c.put xs i v)[k]? = xs[k]? := by
  rw [put, getElem?_overwrite (by rwa [c.length_encode]), c.length_encode, if_neg (by omega)]

theorem get_of_partOf (h : PartOf xs (i, c.encode v)) : c.get xs i = v := by
  have hblock := take_drop_of_partOf h
  rw [c.length_encode] at hblock
  rw [get, hblock, c.decode_encode]

theorem get_put (h : i + c.width ≤ xs.length) : c.get (c.put xs i v) i = v :=
  get_of_partOf (partOf_overwrite (by rwa [c.length_encode]))

theorem put_get (h : i + c.width ≤ xs.length) : c.put xs i (c.get xs i) = xs := by
  rw [put, get, c.encode_decode _ (by rw [List.length_take, List.length_drop]; omega)]
  exact overwrite_self h

theorem decode_inj {ys zs : List α} (hys : ys.length = c.width) (hzs : zs.length = c.width)
    (h : c.decode ys = c.decode zs) : ys = zs := by
  rw [← c.encode_decode ys hys, h, c.encode_decode zs hzs]

end Code

end Buffer
