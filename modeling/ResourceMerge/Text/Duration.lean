import ResourceMerge.Text.Rounding

/-! Durations for people: whole milliseconds below a second, seconds with three places below a
    minute, and minutes with the seconds left over from there on. Seconds and minutes are computed
    with significands of 53 bits, every single operation rounded. -/

namespace ResourceMerge.Text

/-- A duration of so many milliseconds. -/
def duration (milliseconds : Nat) : String :=
  if milliseconds < 1000 then toString milliseconds ++ " ms"
  else
    let seconds := round53 (round53 milliseconds / 1000)
    if seconds < 60 then fixed 3 seconds ++ " s"
    else
      let minutes := (round53 (seconds / 60)).floor
      let left := round53 (seconds - round53 (minutes * 60))
      toString minutes ++ " min " ++ fixed 1 left ++ " s"

end ResourceMerge.Text
