import Mathlib.Data.List.Basic
import Mathlib.Tactic.Common

/-!
# Frames on a stream

A stream of bytes carries frames: a head of fixed width that says how long the body is, and the body. A
reader takes the stream in chunks, as they arrive, and takes each head and each body once its bytes are
there. What it makes of a stream does not depend on where the stream was cut (`feed_append`), a stream of
frames written whole is read whole (`feed_frames`), and whatever it took was framed (`feed_framed`).
-/

namespace Common

variable {β ρ ε : Type}

/-- How frames are read: the width of a head, the length it says, and what a body is. -/
structure Framing (β ρ ε : Type) where
  width : ℕ
  width_pos : 0 < width
  lengthOf : List β → Except ε ℕ
  bodyOf : List β → Except ε ρ

namespace Framing

/-- A reader: the bytes it has not taken, the length of the body it waits for if it has taken its head,
and the error it ended with. -/
structure Reader (β ε : Type) where
  buffer : List β := []
  awaits : Option ℕ := none
  ended : Option ε := none
deriving DecidableEq, Repr

variable (f : Framing β ρ ε)

/-- One head or body is taken, if its bytes are there. -/
def piece (r : Reader β ε) : Option (Reader β ε × List ρ) :=
  if r.ended.isSome then none
  else
    match r.awaits with
    | none =>
      if f.width ≤ r.buffer.length then
        match f.lengthOf (r.buffer.take f.width) with
        | .ok length => some ({ r with buffer := r.buffer.drop f.width, awaits := some length }, [])
        | .error error => some ({ r with buffer := r.buffer.drop f.width, ended := some error }, [])
      else none
    | some length =>
      if length ≤ r.buffer.length then
        match f.bodyOf (r.buffer.take length) with
        | .ok body => some ({ r with buffer := r.buffer.drop length, awaits := none }, [body])
        | .error error => some ({ r with buffer := r.buffer.drop length, ended := some error }, [])
      else none

/-- Pieces are taken, at most `fuel` of them. -/
def drain : ℕ → Reader β ε → Reader β ε × List ρ
  | 0, r => (r, [])
  | fuel + 1, r =>
    match f.piece r with
    | none => (r, [])
    | some (r', told) =>
      let rest := drain fuel r'
      (rest.1, told ++ rest.2)

/-- As many pieces as a reader can take at most: what is left to take. -/
def Reader.size (r : Reader β ε) : ℕ :=
  2 * r.buffer.length + (if r.awaits.isSome then 1 else 0) + (if r.ended.isSome then 0 else 1)

/-- Everything that can be taken is taken. -/
def drained (r : Reader β ε) : Reader β ε × List ρ := f.drain r.size r

/-- A chunk arrives. -/
def feed (r : Reader β ε) (chunk : List β) : Reader β ε × List ρ :=
  f.drained { r with buffer := r.buffer ++ chunk }

/-! ## Taking what is there -/

variable {f} {r r' : Reader β ε} {told : List ρ}

/-- What a piece is, and what it leaves. -/
theorem piece_cases (h : f.piece r = some (r', told)) :
    r.ended = none ∧
      ((r.awaits = none ∧ f.width ≤ r.buffer.length ∧ told = [] ∧
          r'.buffer = r.buffer.drop f.width ∧
          ((∃ length, f.lengthOf (r.buffer.take f.width) = .ok length ∧
              r'.awaits = some length ∧ r'.ended = none) ∨
            ∃ error, f.lengthOf (r.buffer.take f.width) = .error error ∧
              r'.awaits = none ∧ r'.ended = some error)) ∨
        ∃ length, r.awaits = some length ∧ length ≤ r.buffer.length ∧
          r'.buffer = r.buffer.drop length ∧
          ((∃ body, f.bodyOf (r.buffer.take length) = .ok body ∧ told = [body] ∧
              r'.awaits = none ∧ r'.ended = none) ∨
            ∃ error, f.bodyOf (r.buffer.take length) = .error error ∧ told = [] ∧
              r'.awaits = some length ∧ r'.ended = some error)) := by
  unfold piece at h
  split at h
  · cases h
  · rename_i hlive
    have hended : r.ended = none := by simpa using hlive
    refine ⟨hended, ?_⟩
    split at h
    · rename_i hawaits
      split at h
      · rename_i hlong
        split at h
        · rename_i length hlength
          obtain ⟨rfl, rfl⟩ := Prod.mk.inj (Option.some.inj h)
          exact .inl ⟨hawaits, hlong, rfl, rfl, .inl ⟨length, hlength, rfl, hended⟩⟩
        · rename_i error herror
          obtain ⟨rfl, rfl⟩ := Prod.mk.inj (Option.some.inj h)
          exact .inl ⟨hawaits, hlong, rfl, rfl, .inr ⟨error, herror, hawaits, rfl⟩⟩
      · cases h
    · rename_i length hawaits
      split at h
      · rename_i hlong
        split at h
        · rename_i body hbody
          obtain ⟨rfl, rfl⟩ := Prod.mk.inj (Option.some.inj h)
          exact .inr ⟨length, hawaits, hlong, rfl, .inl ⟨body, hbody, rfl, rfl, hended⟩⟩
        · rename_i error herror
          obtain ⟨rfl, rfl⟩ := Prod.mk.inj (Option.some.inj h)
          exact .inr ⟨length, hawaits, hlong, rfl, .inr ⟨error, herror, rfl, hawaits, rfl⟩⟩
      · cases h

/-- A piece leaves less to take. -/
theorem size_piece (h : f.piece r = some (r', told)) : r'.size < r.size := by
  obtain ⟨hended, hcases⟩ := piece_cases h
  have hwidth := f.width_pos
  unfold Reader.size
  rw [hended]
  rcases hcases with ⟨hawaits, hlong, -, hbuffer, hrest⟩ | ⟨length, hawaits, hlong, hbuffer, hrest⟩
  · rw [hawaits, hbuffer, List.length_drop]
    rcases hrest with ⟨length, -, hlength, hlive⟩ | ⟨error, -, hnone, herror⟩
    · rw [hlength, hlive]
      show 2 * (r.buffer.length - f.width) + 1 + 1 < 2 * r.buffer.length + 0 + 1
      omega
    · rw [hnone, herror]
      show 2 * (r.buffer.length - f.width) + 0 + 0 < 2 * r.buffer.length + 0 + 1
      omega
  · rw [hawaits, hbuffer, List.length_drop]
    rcases hrest with ⟨body, -, -, hnone, hlive⟩ | ⟨error, -, -, hsame, herror⟩
    · rw [hnone, hlive]
      show 2 * (r.buffer.length - length) + 0 + 1 < 2 * r.buffer.length + 1 + 1
      omega
    · rw [hsame, herror]
      show 2 * (r.buffer.length - length) + 1 + 0 < 2 * r.buffer.length + 1 + 1
      omega

/-- A piece that can be taken is taken all the same when more bytes follow. -/
theorem piece_append (h : f.piece r = some (r', told)) (more : List β) :
    f.piece { r with buffer := r.buffer ++ more } =
      some ({ r' with buffer := r'.buffer ++ more }, told) := by
  have htake {n : ℕ} (hn : n ≤ r.buffer.length) : (r.buffer ++ more).take n = r.buffer.take n :=
    List.take_append_of_le_length hn
  have hdrop {n : ℕ} (hn : n ≤ r.buffer.length) :
      (r.buffer ++ more).drop n = r.buffer.drop n ++ more := List.drop_append_of_le_length hn
  have hlength : r.buffer.length ≤ (r.buffer ++ more).length := by
    rw [List.length_append]
    exact Nat.le_add_right _ _
  obtain ⟨hended, hcases⟩ := piece_cases h
  obtain ⟨buffer, awaits, ended⟩ := r'
  unfold piece
  rw [hended]
  rcases hcases with ⟨hawaits, hlong, rfl, hbuffer, hrest⟩ | ⟨length, hawaits, hlong, hbuffer, hrest⟩
  · rw [hawaits]
    simp only [Option.isSome_none, Bool.false_eq_true, if_false, if_pos (Nat.le_trans hlong hlength),
      htake hlong, hdrop hlong]
    dsimp only at hbuffer
    subst hbuffer
    rcases hrest with ⟨length, hok, rfl, rfl⟩ | ⟨error, herror, rfl, rfl⟩
    · rw [hok]
    · rw [herror]
  · rw [hawaits]
    simp only [Option.isSome_none, Bool.false_eq_true, if_false, if_pos (Nat.le_trans hlong hlength),
      htake hlong, hdrop hlong]
    dsimp only at hbuffer
    subst hbuffer
    rcases hrest with ⟨body, hok, rfl, rfl, rfl⟩ | ⟨error, herror, rfl, rfl, rfl⟩
    · rw [hok]
    · rw [herror]

/-- Nothing is taken where no piece is there. -/
theorem drain_none (h : f.piece r = none) (fuel : ℕ) : f.drain fuel r = (r, []) := by
  cases fuel with
  | zero => rfl
  | succ fuel =>
    rw [drain, h]

/-- A piece that is there is taken first. -/
theorem drain_some (h : f.piece r = some (r', told)) (fuel : ℕ) :
    f.drain (fuel + 1) r = ((f.drain fuel r').1, told ++ (f.drain fuel r').2) := by
  rw [drain, h]

/-- More fuel than is needed changes nothing. -/
theorem drain_fuel {fuel fuel' : ℕ} (h : r.size ≤ fuel) (h' : r.size ≤ fuel') :
    f.drain fuel r = f.drain fuel' r := by
  induction fuel generalizing r fuel' with
  | zero =>
    cases hpiece : f.piece r with
    | none => rw [drain_none hpiece, drain_none hpiece]
    | some taken =>
      obtain ⟨r', told⟩ := taken
      have hless := size_piece hpiece
      omega
  | succ fuel ih =>
    cases hpiece : f.piece r with
    | none => rw [drain_none hpiece, drain_none hpiece]
    | some taken =>
      obtain ⟨r', told⟩ := taken
      have hless := size_piece hpiece
      obtain ⟨fuel', rfl⟩ : ∃ n, fuel' = n + 1 := ⟨fuel' - 1, by omega⟩
      have hrest : f.drain fuel r' = f.drain fuel' r' := ih (by omega) (by omega)
      rw [drain_some hpiece, drain_some hpiece, hrest]

/-- A reader without a piece has drained. -/
theorem drained_none (h : f.piece r = none) : f.drained r = (r, []) := drain_none h _

/-- A reader with a piece takes it, and then the rest. -/
theorem drained_some (h : f.piece r = some (r', told)) :
    f.drained r = ((f.drained r').1, told ++ (f.drained r').2) := by
  have hless := size_piece h
  unfold drained
  obtain ⟨fuel, hfuel⟩ : ∃ n, r.size = n + 1 := ⟨r.size - 1, by omega⟩
  have hrest : f.drain fuel r' = f.drain r'.size r' := drain_fuel (by omega) (Nat.le_refl _)
  rw [hfuel, drain_some h, hrest]

/-- What is taken first is taken all the same when more bytes follow. -/
theorem drained_append (r : Reader β ε) (more : List β) :
    f.drained { r with buffer := r.buffer ++ more } =
      let first := f.drained r
      let rest := f.drained { first.1 with buffer := first.1.buffer ++ more }
      (rest.1, first.2 ++ rest.2) := by
  induction hsize : r.size using Nat.strongRecOn generalizing r with
  | _ size ih =>
    cases hpiece : f.piece r with
    | none => rw [drained_none hpiece]; rfl
    | some taken =>
      obtain ⟨r', told⟩ := taken
      rw [drained_some hpiece, drained_some (piece_append hpiece more),
        ih r'.size (hsize ▸ size_piece hpiece) r' rfl]
      dsimp only
      rw [List.append_assoc]

/-! ## Chunks -/

/-- **Two chunks are as one.** -/
theorem feed_append (r : Reader β ε) (first second : List β) :
    f.feed r (first ++ second) =
      let fed := f.feed r first
      let rest := f.feed fed.1 second
      (rest.1, fed.2 ++ rest.2) := by
  have h := @drained_append _ _ _ f { r with buffer := r.buffer ++ first } second
  dsimp only at h
  rw [List.append_assoc] at h
  exact h

/-! ## Frames -/

/-- The bytes are a frame whose body is `value`. -/
def IsFrame (f : Framing β ρ ε) (bytes : List β) (value : ρ) : Prop :=
  ∃ head body, bytes = head ++ body ∧ head.length = f.width ∧ f.lengthOf head = .ok body.length ∧
    f.bodyOf body = .ok value

/-- A frame is read whole, whatever follows it. -/
theorem feed_frame {bytes : List β} {value : ρ} (h : f.IsFrame bytes value) (rest : List β) :
    f.feed {} (bytes ++ rest) = ((f.feed {} rest).1, value :: (f.feed {} rest).2) := by
  obtain ⟨head, body, rfl, hwidth, hlength, hvalue⟩ := h
  have hhead : f.piece { buffer := head ++ (body ++ rest) } =
      some ({ buffer := body ++ rest, awaits := some body.length }, []) := by
    unfold piece
    have htake : (head ++ (body ++ rest)).take f.width = head := List.take_left' hwidth
    have hdrop : (head ++ (body ++ rest)).drop f.width = body ++ rest := List.drop_left' hwidth
    have hlong : f.width ≤ (head ++ (body ++ rest)).length := by
      rw [List.length_append, hwidth]
      exact Nat.le_add_right _ _
    simp only [Option.isSome_none, Bool.false_eq_true, if_false, if_pos hlong, htake, hlength, hdrop]
  have hbody : f.piece { buffer := body ++ rest, awaits := some body.length } =
      some ({ buffer := rest }, [value]) := by
    unfold piece
    have hlong : body.length ≤ (body ++ rest).length := by simp
    simp only [Option.isSome_none, Bool.false_eq_true, if_false, if_pos hlong,
      List.take_left, hvalue, List.drop_left]
  show f.drained { buffer := [] ++ (head ++ body ++ rest) } = _
  rw [List.nil_append, List.append_assoc, drained_some hhead, drained_some hbody]
  rfl

/-- **Frames are read whole**, and what follows them as it would be read alone. -/
theorem feed_frames {frames : List (List β)} {values : List ρ}
    (h : List.Forall₂ f.IsFrame frames values) (rest : List β) :
    f.feed {} (frames.flatten ++ rest) = ((f.feed {} rest).1, values ++ (f.feed {} rest).2) := by
  induction h with
  | nil => rfl
  | cons hframe _ ih =>
    rw [List.flatten_cons, List.append_assoc, feed_frame hframe, ih]
    rfl

/-- A frame cut short is not read, and is no error. -/
theorem feed_partial {bytes part : List β} {value : ρ} (h : f.IsFrame bytes value)
    (hpart : part <+: bytes) (hshort : part.length < bytes.length) :
    (f.feed {} part).2 = [] ∧ (f.feed {} part).1.ended = none := by
  obtain ⟨head, body, rfl, hwidth, hlength, -⟩ := h
  rcases Nat.lt_or_ge part.length f.width with hless | hmore
  · have hnone : f.piece { buffer := [] ++ part } = none := by
      unfold piece
      simp only [Option.isSome_none, Bool.false_eq_true, if_false, List.nil_append,
        if_neg (Nat.not_le.mpr hless)]
    rw [feed, drained_none hnone]
    exact ⟨rfl, rfl⟩
  · obtain ⟨more, rfl⟩ : ∃ more, part = head ++ more := by
      obtain ⟨more, hmore⟩ := List.prefix_of_prefix_length_le (List.prefix_append head body) hpart
        (by omega)
      exact ⟨more, hmore.symm⟩
    have hhead : f.piece { buffer := [] ++ (head ++ more) } =
        some ({ buffer := more, awaits := some body.length }, []) := by
      unfold piece
      have htake : (head ++ more).take f.width = head := List.take_left' hwidth
      have hdrop : (head ++ more).drop f.width = more := List.drop_left' hwidth
      simp only [Option.isSome_none, Bool.false_eq_true, if_false, List.nil_append, if_pos hmore, htake,
        hlength, hdrop]
    have hbody : f.piece { buffer := more, awaits := some body.length } = none := by
      have hless : more.length < body.length := by simpa using hshort
      unfold piece
      simp only [Option.isSome_none, Bool.false_eq_true, if_false, if_neg (Nat.not_le.mpr hless)]
    rw [feed, drained_some hhead, drained_none hbody]
    exact ⟨rfl, rfl⟩

/-- The bytes that a reader took of a frame it has not read whole. -/
def Took (f : Framing β ρ ε) (r : Reader β ε) (taken : List β) : Prop :=
  match r.ended, r.awaits with
  | none, none => taken = []
  | none, some length => taken.length = f.width ∧ f.lengthOf taken = .ok length
  | some error, none => taken.length = f.width ∧ f.lengthOf taken = .error error
  | some error, some _ => ∃ head body, taken = head ++ body ∧ head.length = f.width ∧
      f.lengthOf head = .ok body.length ∧ f.bodyOf body = .error error

/-- What a reader takes is framed, and what it leaves is what follows. -/
theorem drained_framed {taken : List β} (h : f.Took r taken) :
    ∃ frames taken', List.Forall₂ f.IsFrame frames (f.drained r).2 ∧ f.Took (f.drained r).1 taken' ∧
      taken ++ r.buffer = frames.flatten ++ taken' ++ (f.drained r).1.buffer := by
  -- on what is buffered: each piece that is taken leaves less
  induction hsize : r.size using Nat.strongRecOn generalizing r taken with
  | _ size ih =>
    cases hpiece : f.piece r with
    | none =>
      rw [drained_none hpiece]
      exact ⟨[], taken, .nil, h, rfl⟩
    | some taken' =>
      obtain ⟨r', told⟩ := taken'
      obtain ⟨hended, hcases⟩ := piece_cases hpiece
      have hih {taken' : List β} (htook : f.Took r' taken') :=
        ih r'.size (hsize ▸ size_piece hpiece) htook rfl
      rw [drained_some hpiece]
      unfold Took at h
      rw [hended] at h
      -- the piece is a prefix, or the body its length announced
      rcases hcases with ⟨hawaits, hlong, rfl, hbuffer, hrest⟩ |
        ⟨length, hawaits, hlong, hbuffer, hrest⟩
      · rw [hawaits] at h
        obtain rfl : taken = [] := h
        have hhead : (r.buffer.take f.width).length = f.width := List.length_take_of_le hlong
        have htook : f.Took r' (r.buffer.take f.width) := by
          unfold Took
          rcases hrest with ⟨length, hlength, hnext, hlive⟩ | ⟨error, herror, hnext, hover⟩
          · rw [hlive, hnext]
            exact ⟨hhead, hlength⟩
          · rw [hover, hnext]
            exact ⟨hhead, herror⟩
        obtain ⟨frames, taken', hframes, htook', heq⟩ := hih htook
        refine ⟨frames, taken', hframes, htook', ?_⟩
        rw [← heq, hbuffer, List.take_append_drop]
        rfl
      · rw [hawaits] at h
        obtain ⟨hwidth, hlength⟩ : taken.length = f.width ∧ f.lengthOf taken = .ok length := h
        have hbody : (r.buffer.take length).length = length := List.length_take_of_le hlong
        have hlength' : f.lengthOf taken = .ok (r.buffer.take length).length := by rw [hbody, hlength]
        rcases hrest with ⟨body, hok, rfl, hnext, hlive⟩ | ⟨error, herror, rfl, hnext, hover⟩
        · have htook : f.Took r' [] := by
            unfold Took
            rw [hlive, hnext]
          obtain ⟨frames, taken', hframes, htook', heq⟩ := hih htook
          refine ⟨(taken ++ r.buffer.take length) :: frames, taken', ?_, htook', ?_⟩
          · exact .cons ⟨taken, _, rfl, hwidth, hlength', hok⟩ hframes
          · rw [List.flatten_cons, List.append_assoc, List.append_assoc, ← List.append_assoc _ taken',
              ← heq, hbuffer, List.nil_append, List.append_assoc, List.take_append_drop]
        · -- a body that is refused ends the stream, and stays taken
          have htook : f.Took r' (taken ++ r.buffer.take length) := by
            unfold Took
            rw [hover, hnext]
            exact ⟨taken, _, rfl, hwidth, hlength', herror⟩
          obtain ⟨frames, taken', hframes, htook', heq⟩ := hih htook
          refine ⟨frames, taken', hframes, htook', ?_⟩
          rw [← heq, hbuffer, List.append_assoc, List.take_append_drop]

/-- **What is read was framed**: the bytes are the frames of what was read, what the reader took of
one more, and what it has not taken. -/
theorem feed_framed (bytes : List β) :
    ∃ frames taken, List.Forall₂ f.IsFrame frames (f.feed {} bytes).2 ∧
      f.Took (f.feed {} bytes).1 taken ∧
      bytes = frames.flatten ++ taken ++ (f.feed {} bytes).1.buffer := by
  have hstart : f.Took { buffer := [] ++ bytes } [] := rfl
  exact drained_framed hstart

/-- A reader that ended reads nothing more. -/
theorem feed_ended (h : r.ended.isSome = true) (chunk : List β) :
    f.feed r chunk = ({ r with buffer := r.buffer ++ chunk }, []) := by
  refine drained_none ?_
  unfold piece
  exact if_pos h

end Framing

end Common
