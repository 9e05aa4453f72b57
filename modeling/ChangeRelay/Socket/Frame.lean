namespace ChangeRelay

/-- A frame by its kind; `error` is anything that cannot be read as a frame. -/
inductive Frame where
  | text
  | binary
  | ping
  | pong
  | close
  | error
  deriving DecidableEq

end ChangeRelay
