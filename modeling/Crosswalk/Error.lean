import Crosswalk.Path.Parser

/-!
# Errors

Everything that can go wrong belongs to one of six categories, each with its own exit code.

* `message`: the error on one line, with its category.
* `report`: the error for a terminal. A path error quotes the text with a caret under the offending
  character.
* `exitCode`: the status with which a command ends.
-/

namespace Crosswalk

/-- What went wrong. -/
inductive Error where
  /-- A path text was refused at a place, counted in bytes. -/
  | path (message : String) (offset : Nat) (text : String)
  /-- A rule, by its place in the plan, is not well formed. -/
  | rule (index : Nat) (message : String)
  /-- A named conversion failed. -/
  | conversion (name : String) (message : String)
  /-- The text of a document or a plan cannot be read. -/
  | malformed (message : String) (line column : Option Nat)
  /-- A value cannot be written in a format. -/
  | unwritable (message : String)
  /-- A file cannot be read or written. -/
  | io (message : String)
  /-- The options of a command are wrong. -/
  | usage (message : String)
deriving DecidableEq, Repr

/-- A result of a step that can fail. -/
abbrev Outcome (α : Type) := Except Error α

/-- A refused path text as an error. -/
def PathFault.toError (f : PathFault) : Error := .path f.problem.message f.offset f.text

namespace Error

/-- The error on one line, with its category. -/
def message : Error → String
  | path m offset _ => "Path error: " ++ m ++ " at offset " ++ Decimal.ofNatText offset
  | rule index m => "Rule error: rule " ++ Decimal.ofNatText index ++ ": " ++ m
  | conversion name m => "Conversion error: " ++ name ++ ": " ++ m
  | malformed m _ _ => "Format error: " ++ m
  | unwritable m => "Format error: " ++ m
  | io m => "I/O error: " ++ m
  | usage m => "CLI error: " ++ m

/-- The status with which a command ends. -/
def exitCode : Error → Nat
  | usage _ => 2
  | io _ => 3
  | malformed _ _ _ => 4
  | unwritable _ => 4
  | path _ _ _ => 5
  | rule _ _ => 6
  | conversion _ _ => 7

/-- The place of a path error. -/
def offset? : Error → Option Nat
  | path _ offset _ => some offset
  | _ => none

/-- The number of characters that begin before a place counted in bytes. -/
def caretColumn : (offset : Nat) → List Char → Nat
  | _, [] => 0
  | 0, _ => 0
  | offset, c :: cs => 1 + caretColumn (offset - c.utf8Size) cs

/-- A text with a caret under the character at a place. -/
def snippet (text : String) (offset : Nat) : String :=
  "  | " ++ text ++ "\n  | "
    ++ String.ofList (List.replicate (caretColumn offset text.toList) ' ') ++ "^"

/-- Where a text could not be read, as far as that is known. -/
def location : Option Nat → Option Nat → String
  | some line, some column =>
    "\n  --> line " ++ Decimal.ofNatText line ++ ", column " ++ Decimal.ofNatText column
  | some line, none => "\n  --> line " ++ Decimal.ofNatText line
  | none, _ => ""

/-- The error for a terminal. -/
def report : Error → String
  | path m offset text => "error: " ++ m ++ "\n" ++ snippet text offset
  | rule index m => "error: rule " ++ Decimal.ofNatText index ++ ": " ++ m
  | conversion name m => "error: conversion '" ++ name ++ "' failed: " ++ m
  | malformed m line column => "error: " ++ m ++ location line column
  | unwritable m => "error: " ++ m
  | io m => "error: " ++ m
  | usage m => "error: " ++ m

end Error

end Crosswalk
