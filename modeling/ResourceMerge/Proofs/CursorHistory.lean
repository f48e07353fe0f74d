import ResourceMerge.Proofs.Acceptance
import ResourceMerge.Proofs.MixedData

/-! Any requests to a cursor, with requests among them that fail. A request asks for some number of
    bytes. If there are so many, the cursor moves behind them and the answer is what they spell;
    otherwise the error tells how many were asked for and where, and the cursor stays. So the cursor
    never leaves its byte string, however large the sizes are, and the bytes that the successful
    requests took are, one behind the other, all the bytes up to where it stands. The invariant is
    that the bytes not read yet are those behind the offset; a failure keeps it by changing
    nothing. -/

namespace ResourceMerge.Binary

variable {α β : Type} {r : Reader α} {n : Nat} {f : List UInt8 → α} {bytes : List UInt8}
  {c : Cursor}

/-! ### Readers of a size -/

/-- `r` asks for `n` bytes. It moves behind the next ones and answers for them by `f`, or it reports
    that there are not so many and stays. -/
structure Sized (r : Reader α) (n : Nat) (f : List UInt8 → α) : Prop where
  taken : ∀ c, n ≤ c.rest.length →
    r c = .ok (f (c.rest.take n)) ⟨c.rest.drop n, c.offset + n⟩
  missing : ∀ c, c.rest.length < n → r c = .error (.endOfInput n c.offset) c

namespace Sized

theorem take (n : Nat) : Sized (Reader.take n) n id :=
  ⟨fun _ => Reader.take_of_le, fun _ => Reader.take_of_lt⟩

theorem map (h : Sized r n f) (g : α → β) :
    Sized (r >>= fun a => pure (g a)) n (g ∘ f) where
  taken c hc := by
    simp only [Bind.bind, EStateM.bind, h.taken c hc]
    rfl
  missing c hc := by simp only [Bind.bind, EStateM.bind, h.missing c hc]

/-- Only the answers for runs of the size matter. -/
theorem congr {g : List UInt8 → α} (h : Sized r n f)
    (hsame : ∀ run, run.length = n → f run = g run) : Sized r n g where
  taken c hc := by rw [h.taken c hc, hsame _ (List.length_take_of_le hc)]
  missing := h.missing

theorem skip (n : Nat) : Sized (Reader.skip n) n fun _ => () := (take n).map _

theorem u8 : Sized Reader.u8 1 fun run => UInt8.ofNat (number run) := (take 1).map _

theorem u16 : Sized Reader.u16 2 fun run => UInt16.ofNat (number run) := (take 2).map _

theorem u32 : Sized Reader.u32 4 fun run => UInt32.ofNat (number run) := (take 4).map _

theorem u64 : Sized Reader.u64 8 fun run => UInt64.ofNat (number run) := (take 8).map _

end Sized

/-! ### Requests -/

/-- What a cursor is asked for: a word of some width, with a sign or without one, a run of bytes, or
    to step over bytes. -/
inductive Request where
  | u8
  | i8
  | u16
  | i16
  | u32
  | i32
  | u64
  | bytes (size : Nat)
  | skip (size : Nat)
  deriving DecidableEq

/-- What comes back from a request: a number, a run of bytes, or nothing but the step. -/
inductive Answer where
  | number (value : Int)
  | run (bytes : List UInt8)
  | nothing
  deriving DecidableEq

namespace Request

/-- What the request does to a cursor. -/
def perform : Request → Reader Answer
  | .u8 => return .number (← Reader.u8).toNat
  | .i8 => return .number (← Reader.i8).toInt
  | .u16 => return .number (← Reader.u16).toNat
  | .i16 => return .number (← Reader.i16).toInt
  | .u32 => return .number (← Reader.u32).toNat
  | .i32 => return .number (← Reader.i32).toInt
  | .u64 => return .number (← Reader.u64).toNat
  | .bytes size => return .run (← Reader.take size)
  | .skip size => do
    Reader.skip size
    return .nothing

/-- How many bytes the request asks for. -/
def size : Request → Nat
  | .u8 | .i8 => 1
  | .u16 | .i16 => 2
  | .u32 | .i32 => 4
  | .u64 => 8
  | .bytes size | .skip size => size

/-- What bytes mean to the request. -/
def spell : Request → List UInt8 → Answer
  | .u8, run | .u16, run | .u32, run | .u64, run => .number (number run)
  | .i8, run => .number (signed 8 (number run))
  | .i16, run => .number (signed 16 (number run))
  | .i32, run => .number (signed 32 (number run))
  | .bytes _, run => .run run
  | .skip _, _ => .nothing

/-- The cursor that the request leaves, also where it fails. -/
def leaves (c : Cursor) (request : Request) : Cursor :=
  match request.perform c with
  | .ok _ c' | .error _ c' => c'

end Request

/-- The cursor that requests lead to from the start of a byte string, whichever of them fail. -/
def Cursor.after (bytes : List UInt8) (requests : List Request) : Cursor :=
  requests.foldl Request.leaves (.start bytes)

/-- A request that was answered, and the offsets before and after it. -/
structure Success where
  request : Request
  start : Nat
  stop : Nat
  answer : Answer

/-- The bytes over which the cursor moved. -/
def Success.slice (bytes : List UInt8) (success : Success) : List UInt8 :=
  bytes.extract success.start success.stop

/-- The answered ones of the requests made one after the other, the first of them at `c`. -/
def successes (c : Cursor) : List Request → List Success
  | [] => []
  | request :: rest =>
    match request.perform c with
    | .ok answer c' => ⟨request, c.offset, c'.offset, answer⟩ :: successes c' rest
    | .error _ c' => successes c' rest

/-! ### One request -/

theorem number_lt_of_length (h : bytes.length = n) : number bytes < 256 ^ n := h ▸ number_lt bytes

theorem toNat_u8 (h : bytes.length = 1) : (UInt8.ofNat (number bytes)).toNat = number bytes :=
  UInt8.toNat_ofNat_of_lt (number_lt_of_length h)

theorem toNat_u16 (h : bytes.length = 2) : (UInt16.ofNat (number bytes)).toNat = number bytes :=
  UInt16.toNat_ofNat_of_lt (number_lt_of_length h)

theorem toNat_u32 (h : bytes.length = 4) : (UInt32.ofNat (number bytes)).toNat = number bytes :=
  UInt32.toNat_ofNat_of_lt (number_lt_of_length h)

theorem toNat_u64 (h : bytes.length = 8) : (UInt64.ofNat (number bytes)).toNat = number bytes :=
  UInt64.toNat_ofNat_of_lt (number_lt_of_length h)

/-- A request asks for its size, and its answer is what the bytes mean to it. -/
theorem Request.sized : ∀ request : Request, Sized request.perform request.size request.spell
  | .u8 => (Sized.u8.map _).congr fun _ h => by rw [Function.comp, toNat_u8 h, spell]
  | .i8 => ((Sized.u8.map _).map _).congr fun _ h => by
    rw [Function.comp, Function.comp, toInt_toInt8, toNat_u8 h, spell]
  | .u16 => (Sized.u16.map _).congr fun _ h => by rw [Function.comp, toNat_u16 h, spell]
  | .i16 => ((Sized.u16.map _).map _).congr fun _ h => by
    rw [Function.comp, Function.comp, toInt_toInt16, toNat_u16 h, spell]
  | .u32 => (Sized.u32.map _).congr fun _ h => by rw [Function.comp, toNat_u32 h, spell]
  | .i32 => ((Sized.u32.map _).map _).congr fun _ h => by
    rw [Function.comp, Function.comp, toInt_toInt32, toNat_u32 h, spell]
  | .u64 => (Sized.u64.map _).congr fun _ h => by rw [Function.comp, toNat_u64 h, spell]
  | .bytes size => (Sized.take size).map _
  | .skip size => (Sized.skip size).map _

/-- Only a request for more bytes than there are fails. -/
theorem Request.fails_iff (request : Request) (c : Cursor) :
    (∃ e c', request.perform c = .error e c') ↔ c.rest.length < request.size := by
  constructor
  · rintro ⟨e, c', h⟩
    by_contra henough
    rw [request.sized.taken c (Nat.le_of_not_lt henough)] at h
    cases h
  · exact fun h => ⟨_, _, request.sized.missing c h⟩

/-- The bytes not read yet are those behind the offset, which is in the byte string. -/
structure Cursor.StandsIn (c : Cursor) (bytes : List UInt8) : Prop where
  rest : c.rest = bytes.drop c.offset
  within : c.offset ≤ bytes.length

theorem Cursor.start_standsIn (bytes : List UInt8) : (Cursor.start bytes).StandsIn bytes :=
  ⟨rfl, Nat.zero_le _⟩

theorem Cursor.StandsIn.offset_add (h : c.StandsIn bytes) :
    c.offset + c.rest.length = bytes.length := by
  have hwithin := h.within
  rw [h.rest, List.length_drop]
  omega

theorem Cursor.StandsIn.move (h : c.StandsIn bytes) (hn : n ≤ c.rest.length) :
    (⟨c.rest.drop n, c.offset + n⟩ : Cursor).StandsIn bytes where
  rest := by rw [h.rest, List.drop_drop]
  within := by
    have hall := h.offset_add
    simp only
    omega

theorem Cursor.StandsIn.leaves (h : c.StandsIn bytes) (request : Request) :
    (request.leaves c).StandsIn bytes := by
  rcases Nat.lt_or_ge c.rest.length request.size with hmissing | henough
  · rw [Request.leaves, request.sized.missing c hmissing]
    exact h
  · rw [Request.leaves, request.sized.taken c henough]
    exact h.move henough

/-- Between the offsets of a success stand the bytes that it took. -/
theorem Cursor.StandsIn.slice (h : c.StandsIn bytes) (request : Request) (answer : Answer) :
    Success.slice bytes ⟨request, c.offset, c.offset + request.size, answer⟩
      = c.rest.take request.size := by
  rw [Success.slice, List.extract_eq_take_drop, Nat.add_sub_cancel_left, h.rest]

/-! ### Any number of requests -/

theorem standsIn_foldl : ∀ (requests : List Request) (c : Cursor), c.StandsIn bytes →
    (requests.foldl Request.leaves c).StandsIn bytes
  | [], _, h => h
  | request :: rest, _, h => standsIn_foldl rest _ (h.leaves request)

/-- The slices continue the bytes read before, up to where the cursor comes to stand. -/
theorem take_append_slices : ∀ (requests : List Request) (c : Cursor), c.StandsIn bytes →
    bytes.take c.offset ++ ((successes c requests).map (Success.slice bytes)).flatten
      = bytes.take (requests.foldl Request.leaves c).offset
  | [], c, _ => List.append_nil _
  | request :: rest, c, h => by
    rw [List.foldl_cons, successes, Request.leaves]
    rcases Nat.lt_or_ge c.rest.length request.size with hmissing | henough
    · rw [request.sized.missing c hmissing]
      exact take_append_slices rest c h
    · rw [request.sized.taken c henough]
      have hrest := take_append_slices rest _ (h.move henough)
      rw [List.map_cons, List.flatten_cons, h.slice, h.rest, ← List.append_assoc, ← List.take_add]
      rwa [h.rest] at hrest

theorem successes_spelled : ∀ (requests : List Request) (c : Cursor), c.StandsIn bytes →
    ∀ success ∈ successes c requests, success.stop = success.start + success.request.size ∧
      success.answer = success.request.spell (success.slice bytes)
  | [], _, _ => nofun
  | request :: rest, c, h => by
    rw [successes]
    rcases Nat.lt_or_ge c.rest.length request.size with hmissing | henough
    · rw [request.sized.missing c hmissing]
      exact successes_spelled rest c h
    · rw [request.sized.taken c henough]
      have hfirst := h.slice request (request.spell (c.rest.take request.size))
      rintro success (_ | ⟨_, hlater⟩)
      · exact ⟨rfl, by rw [hfirst]⟩
      · exact successes_spelled rest _ (h.move henough) success hlater

/-- After any requests, some of which may have failed, the offset and the bytes that remain add up
    to the byte string. The slices taken by the requests that succeeded are, one behind the other,
    exactly the bytes before the offset, and each of them has the size of its request and spells
    its answer. A request fails exactly if it asks for more bytes than remain; it then reports how
    many it asked for and the offset, and the cursor does not move. -/
theorem Cursor.after_accounted (bytes : List UInt8) (requests : List Request) :
    let c := Cursor.after bytes requests
    let answered := successes (.start bytes) requests
    c.offset + c.rest.length = bytes.length ∧
    (answered.map (Success.slice bytes)).flatten = bytes.take c.offset ∧
    (∀ success ∈ answered, success.stop = success.start + success.request.size ∧
      success.answer = success.request.spell (success.slice bytes)) ∧
    (∀ request : Request,
      (∃ e c', request.perform c = .error e c') ↔ c.rest.length < request.size) ∧
    ∀ (request : Request) e c', request.perform c = .error e c' →
      e = .endOfInput request.size c.offset ∧ c' = c := by
  have hstart := Cursor.start_standsIn bytes
  refine ⟨(standsIn_foldl requests _ hstart).offset_add, take_append_slices requests _ hstart,
    successes_spelled requests _ hstart, fun request => request.fails_iff _, ?_⟩
  intro request e c' hfails
  have hmissing := (request.fails_iff _).1 ⟨e, c', hfails⟩
  rw [request.sized.missing _ hmissing] at hfails
  cases hfails
  exact ⟨rfl, rfl⟩

def sampleBytes : List UInt8 := [0xbe, 0xef, 0x80, 1, 2, 3]

/-- A step over more bytes than any byte string has, and two words that are cut off. -/
def sampleRequests : List Request := [.u16, .skip (2 ^ 64 - 1), .i8, .u64, .bytes 2, .i32]

theorem Cursor.after_accounted_sample :
    let c := Cursor.after sampleBytes sampleRequests
    let answered := successes (.start sampleBytes) sampleRequests
    answered.map Success.answer = [.number 0xbeef, .number (-128), .run [1, 2]] ∧
    (answered.map (Success.slice sampleBytes)).flatten = sampleBytes.take 5 ∧
    ∃ e c', (Request.skip (2 ^ 64 - 1)).perform c = .error e c' ∧
      e = .endOfInput (2 ^ 64 - 1) 5 ∧ c' = c := by
  intro c answered
  obtain ⟨-, hslices, -, hfails, hreports⟩ := Cursor.after_accounted sampleBytes sampleRequests
  have hoffset : c.offset = 5 := by decide
  obtain ⟨e, c', hskip⟩ := (hfails (.skip (2 ^ 64 - 1))).2 (by decide)
  obtain ⟨he, hc⟩ := hreports _ e c' hskip
  exact ⟨by decide, hoffset ▸ hslices, e, c', hskip, hoffset ▸ he, hc⟩

end ResourceMerge.Binary
