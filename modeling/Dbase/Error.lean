/-
  Dbase.Error — what the library reports when something fails: the C++ exceptions it
  throws (`Err`, with the text of `what()`), and `dbase::Error` as `Result<T>` holds
  it (`error.h`, `error.cpp`).

  `makeSystemError` appends the C library's text for the error number to its
  message; `Error` keeps the two parts it is built from.
-/

namespace Dbase

inductive Err where
  | outOfRange (what : String)
  | lengthError (what : String)
  | invalidArgument (what : String)
  | logicError (what : String)
  /-- `std::vector` or `operator new` could not provide the storage: `std::bad_alloc`, or `std::length_error` above
      `max_size()` -/
  | noStorage
  deriving DecidableEq, Repr

inductive ErrorCode where
  | ok
  | invalidArgument
  | notFound
  | alreadyExists
  | ioError
  | timeout
  | notSupported
  | systemError
  | parseError
  | invalidState
  | cancelled
  | wouldBlock
  | endOfFile
  | unknown
  deriving DecidableEq, Repr

/-- `static_cast<int>(code)`. -/
def ErrorCode.toInt : ErrorCode → Int
  | .ok => 0
  | .invalidArgument => 1
  | .notFound => 2
  | .alreadyExists => 3
  | .ioError => 4
  | .timeout => 5
  | .notSupported => 6
  | .systemError => 7
  | .parseError => 8
  | .invalidState => 9
  | .cancelled => 10
  | .wouldBlock => 11
  | .endOfFile => 12
  | .unknown => 13

structure Error where
  code : ErrorCode
  message : String
  errno : Nat
  deriving DecidableEq, Repr

def makeSystemError (message : String) (errno : Nat) : Error := ⟨.systemError, message, errno⟩

end Dbase
